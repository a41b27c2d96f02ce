import EasyHttp.Cache.CacheRemoval

/-!
# What the parts of a call of `HttpFileCache` do

* `Trimmed`: `Trims` for a whole cache;
* `wp_lru`, `wp_onDisk`: code over the list, and over the disk;
* `wp_initializeCache`, `wp_get_entry`: how every call begins;
* `wp_deleteCorruptedCacheFile`, `wp_catchSql`: how it ends after a failure of the database;
* `wp_readMetadata`, `wp_createStreamFromCache`, `wp_addReader`: what the readers do;
* `OthersKept`, `wp_storeMetadata`: what is done to the file and the row of one key.
-/

namespace EasyHttp.HttpFileCache

open Exec LruCacheByDataSizeStrategy LruOperations LruCapacity

variable {json : PocoJson} {s t u : HttpFileCache} {may may' : String → HttpCacheInfo → Prop}
  {key k : String} {info : HttpCacheInfo} {it : ℕ} {α : Type}

/-- The list and the disk. -/
def stores (s : HttpFileCache) : Stores := (s.lruCacheStrategy, s.disk)

/-- The cache with another list and another disk. -/
def withStores (s : HttpFileCache) (p : Stores) : HttpFileCache :=
  { s with lruCacheStrategy := p.1, disk := p.2 }

/-- What is stored for a key, in the three places. -/
def storedIn (s : HttpFileCache) (key : String) :
    Option HttpCacheInfo × Option Row × Option String := stored s.cacheRootDir s.stores key

/-- A path of the form that the body files have. -/
def isBodyFile (cacheRootDir path : String) : Bool :=
  (cacheRootDir ++ "/").toList.isPrefixOf path.toList && ".data".toList.isSuffixOf path.toList

/-- A call of the list is one on the stores. -/
theorem wp_lru {x : LruListener CacheException Disk HttpCacheInfo →
      LruExec CacheException Disk HttpCacheInfo α} {Q : α → HttpFileCache → Prop}
    {E : CacheException → HttpFileCache → Prop} :
    wp (lru x) Q E s ↔ wp (x (listener s.cacheRootDir)) (fun a p => Q a (s.withStores p))
      (fun e p => E e (s.withStores p)) s.stores := by
  unfold lru
  rw [wp_bind, wp_getState]
  exact wp_zoom

/-- A call of the disk leaves the list alone. -/
theorem wp_onDisk {x : DiskExec α} {Q : α → HttpFileCache → Prop}
    {E : CacheException → HttpFileCache → Prop} :
    wp (onDisk x) Q E s ↔ wp x (fun a disk => Q a { s with disk := disk })
      (fun e disk => E e { s with disk := disk }) s.disk := wp_zoom

/-- What is stored for each key is as before, or it is gone and `may` allows it to be. -/
structure Trimmed (may : String → HttpCacheInfo → Prop) (s t : HttpFileCache) : Prop where
  trims : Trims s.cacheRootDir may s.stores t.stores
  cacheRootDir_eq : t.cacheRootDir = s.cacheRootDir
  nextSerial_eq : t.nextSerial = s.nextSerial
  initialized : s.cacheInitialized = true → t.cacheInitialized = true

/-- What leaves the stores leaves the cache. -/
theorem trimmed_of_trims {p : Stores} (h : Trims s.cacheRootDir may s.stores p) :
    Trimmed may s (s.withStores p) := ⟨h, rfl, rfl, id⟩

/-- Nothing needs to leave. -/
theorem trimmed_refl (hwf : s.lruCacheStrategy.Wf) : Trimmed may s s :=
  ⟨trims_refl hwf, rfl, rfl, id⟩

theorem Trimmed.trans (hst : Trimmed may s t) (htu : Trimmed may t u) : Trimmed may s u :=
  ⟨hst.trims.trans (hst.cacheRootDir_eq ▸ htu.trims), htu.cacheRootDir_eq.trans hst.cacheRootDir_eq,
    htu.nextSerial_eq.trans hst.nextSerial_eq, fun h => htu.initialized (hst.initialized h)⟩

theorem Trimmed.mono (h : Trimmed may s t)
    (hmay : ∀ k info, s.entry k = some info → may k info → may' k info) :
    Trimmed may' s t := ⟨h.trims.mono hmay, h.cacheRootDir_eq, h.nextSerial_eq, h.initialized⟩

/-- Nothing is gone. -/
abbrev Untrimmed (s t : HttpFileCache) : Prop := Trimmed (fun _ _ => False) s t

theorem Trimmed.of_untrimmed (h : Untrimmed s t) : Trimmed may s t := h.mono fun _ _ _ => False.elim

/-- Where nothing may leave all stays stored. -/
theorem Untrimmed.stored_eq (h : Untrimmed s t) (k : String) :
    stored s.cacheRootDir t.stores k = stored s.cacheRootDir s.stores k := by
  refine (h.trims.each k).resolve_right fun hgone => ?_
  obtain ⟨-, -, -, hfalse⟩ := hgone
  exact hfalse

/-- And all entries stay. -/
theorem Untrimmed.entry_eq (h : Untrimmed s t) : t.entry = s.entry := by
  funext k
  exact congrArg Prod.fst (h.stored_eq k)

/-! ## The beginning of a call -/

/-- Until the cache is initialized, nothing is listed and there is no row. -/
def EmptyUntilInitialized (s : HttpFileCache) : Prop :=
  s.cacheInitialized = true ∨ ∀ k, s.entry k = none ∧ s.disk.row k = none

/-- The directory is there afterwards, if the files work. -/
theorem wp_createDirsIfAbsent (disk : Disk) (dir : String) :
    wp (FileUtil.createDirsIfAbsent dir)
      (fun ret d => Disk.Same disk d ∧ (disk.FilesWork → dir ≠ "" → ret = true))
      (fun _ _ => False) disk := by
  unfold FileUtil.createDirsIfAbsent
  rw [wp_tryCatch]
  by_cases hdir : dir = ""
  · rw [if_pos hdir]
    exact ⟨refl_of _ disk, fun _ hne => absurd hdir hne⟩
  · rw [if_neg hdir]
    show wp (Disk.fileCall dir >>= _) _ _ disk
    rw [wp_bind]
    refine wp_mono (Disk.wp_fileCall disk dir) (fun _ d hd => ⟨hd, fun _ _ => rfl⟩) fun e d hd => ?_
    exact wp_catchPoco hd.2 ⟨hd.1, fun hwork => absurd hwork hd.2.1⟩

/-- The initialization has been done, or cannot be done for want of a directory. -/
def Started (s : HttpFileCache) : Prop := s.cacheInitialized = true ∨ s.cacheRootDir = ""

/-- A second initialisation does nothing. -/
theorem exec_initializeCache_started (h : s.Started) : exec initializeCache s = (.ok (), s) := by
  unfold initializeCache
  rw [exec_bind_ok (exec_getState s)]
  cases hinit : s.cacheInitialized with
  | true => rfl
  | false =>
    have hdir : s.cacheRootDir = "" := h.resolve_left (by rw [hinit]; exact Bool.false_ne_true)
    have hcreated : exec (onDisk (FileUtil.createDirsIfAbsent s.cacheRootDir)) s =
        (.ok false, s) := by
      rw [hdir]
      rfl
    show exec (getState >>= _) s = _
    rw [exec_bind_ok (exec_getState s), exec_bind_ok hcreated]
    rfl

/-- Of a cache that has been started, a call begins with its second line. -/
theorem wp_started {x : CacheExec α} {Q : α → HttpFileCache → Prop}
    {E : CacheException → HttpFileCache → Prop} (h : s.Started) :
    wp (initializeCache >>= fun _ => x) Q E s ↔ wp x Q E s := by
  rw [wp_bind]
  unfold wp
  rw [exec_initializeCache_started h]

theorem entries_eq_nil {rows : SortedMap String Row} (h : ∀ k, rows.find? k = none) :
    rows.entries = [] := by
  cases hrows : rows.entries with
  | nil => rfl
  | cons e l =>
    have hfound : rows.find? e.1 = some e.2 := by
      rw [SortedMap.find?_eq_some_iff, hrows]
      exact List.mem_cons_self
    rw [h e.1] at hfound
    cases hfound

/-- A look at the disk changes nothing. -/
theorem untrimmed_of_same (hwf : s.lruCacheStrategy.Wf) {disk : Disk}
    (hsame : Disk.Same s.disk disk) : Untrimmed s { s with disk := disk } :=
  ⟨trims_of_same hwf rfl hsame.1 hsame.row hsame.file, rfl, rfl, id⟩

/-- What is listed stays as it is. -/
theorem wp_initializeCache (hwf : s.lruCacheStrategy.Wf) (hempty : s.EmptyUntilInitialized) :
    wp initializeCache
      (fun _ t => Untrimmed s t ∧ t.lruCacheStrategy = s.lruCacheStrategy ∧
        (s.cacheInitialized = true → t = s) ∧
        (s.disk.FilesWork → s.cacheRootDir ≠ "" → t.cacheInitialized = true))
      (fun e t => Untrimmed s t ∧ t.EmptyUntilInitialized ∧ Disk.DatabaseFails s.disk e ∧
        s.cacheInitialized = false) s := by
  unfold initializeCache
  rw [wp_bind, wp_getState]
  -- a cache is initialized once
  cases hinit : s.cacheInitialized with
  | true => exact ⟨trimmed_refl hwf, rfl, fun _ => rfl, fun _ _ => hinit⟩
  | false =>
    have hnone := hempty.resolve_left (by rw [hinit]; exact Bool.false_ne_true)
    show wp (getState >>= _) _ _ s
    rw [wp_bind, wp_getState, wp_bind, wp_onDisk]
    refine wp_mono (wp_createDirsIfAbsent s.disk _) (fun created d hd => ?_) fun _ _ he => he.elim
    obtain ⟨hsame, hcreated⟩ := hd
    -- without the directory it stays uninitialized
    cases created with
    | false =>
      refine ⟨untrimmed_of_same hwf hsame, rfl, nofun, fun hwork hne => ?_⟩
      exact absurd (hcreated hwork hne) Bool.false_ne_true
    | true =>
      show wp (enumerate >>= _) _ _ _
      unfold enumerate
      rw [wp_bind, wp_bind, wp_onDisk]
      refine wp_mono (wp_queryAll d) (fun params d' hd' => ?_) fun e d' hd' => ?_
      -- the rows have been queried, and are put into the list
      · obtain ⟨hsame', hperm⟩ := hd'
        -- there is no row to hand over
        have hrows : d.rows.entries = [] := entries_eq_nil fun k => by
          show d.row k = none
          rw [hsame.row, (hnone k).2]
        rw [hrows] at hperm
        have hnil : params = [] := hperm.eq_nil
        subst hnil
        have htrim := untrimmed_of_same hwf (trans_of _ hsame hsame')
        exact ⟨⟨htrim.trims, rfl, rfl, fun _ => rfl⟩, rfl, nofun, fun _ _ => rfl⟩
      -- the query has thrown
      · have hall := trans_of _ hsame hd'.1
        refine ⟨untrimmed_of_same hwf hall, .inr fun k => ⟨(hnone k).1, ?_⟩, ?_, rfl⟩
        · show d'.row k = none
          rw [hall.row, (hnone k).2]
        · rcases hd'.2 with ⟨he, hmem⟩ | ⟨he, hmem⟩
          · exact .inl ⟨he, hsame.1.mem_database hmem⟩
          · exact .inr ⟨he, hsame.1.mem_database hmem⟩

/-- The entry is looked up, and moved to the latest position. -/
theorem wp_get_entry (hwf : s.lruCacheStrategy.Wf) (key : String) :
    wp (lru (HttpLruCacheStrategy.get · key))
      (fun found t => found = s.entry key ∧ Untrimmed s t ∧ t.disk = s.disk ∧
        t.cacheInitialized = s.cacheInitialized ∧
        t.lruCacheStrategy.totalSize = s.lruCacheStrategy.totalSize)
      (fun _ _ => False) s := by
  rw [wp_lru]
  unfold wp
  cases hfind : s.lruCacheStrategy.find key with
  | none =>
    rw [HttpLruCacheStrategy.exec_get_none (s := s.stores) hfind]
    exact ⟨(entry_eq_none_iff.mpr hfind).symm, trimmed_refl hwf, rfl, rfl, rfl⟩
  | some found =>
    obtain ⟨it, info⟩ := found
    rw [HttpLruCacheStrategy.exec_get (s := s.stores) (fun _ _ => rfl) hfind]
    refine ⟨(entry_of_find hfind).symm, ⟨⟨hwf.wf_touch hfind, fun h => ?_, rfl, refl_of _ _,
      fun k => .inl ?_, fun _ _ => rfl⟩, rfl, rfl, id⟩, rfl, rfl, rfl⟩
    · exact ⟨⟨hwf.wf_touch hfind, h.total.trans (sizes_touch hfind).symm⟩, Nat.le_refl _⟩
    · unfold stored
      show ((s.lruCacheStrategy.touch key it info).entry k, _, _) = _
      rw [hwf.entry_touch hfind]
      rfl

/-! ## After a corrupted database -/

/-- Everything is deleted, but for files that could not be. -/
structure Reset (s t : HttpFileCache) : Prop where
  lruCacheStrategy_eq :
    t.lruCacheStrategy = LruCacheByDataSizeStrategy.construct s.lruCacheStrategy.maxSize
  rows_eq : t.disk.rows = SortedMap.empty
  later : Disk.Later s.disk t.disk
  cacheRootDir_eq : t.cacheRootDir = s.cacheRootDir
  nextSerial_eq : t.nextSerial = s.nextSerial
  initialized : t.cacheInitialized = false

/-- Only a failure of a file operation lets it throw, or leaves the database file there. -/
theorem wp_deleteCorruptedCacheFile (hfiles : s.disk.FilesWork) :
    wp deleteCorruptedCacheFile (fun _ t => Reset s t) (fun _ _ => False) s := by
  -- what holds once the first removal of the database file is done
  have hdelete : ∀ {t : HttpFileCache}, Reset s t →
      wp deleteCacheFile (fun _ u => Reset s u) (fun _ _ => False) t := by
    intro t ht
    unfold deleteCacheFile
    rw [wp_bind, wp_onDisk]
    refine wp_mono (wp_deleteDatabaseFile t.disk) (fun _ d hd => ?_) fun _ _ he => he.elim
    obtain ⟨hlater, -, hrows⟩ := hd
    refine ⟨ht.lruCacheStrategy_eq, ?_, trans_of _ ht.later hlater, ht.cacheRootDir_eq,
      ht.nextSerial_eq, ht.initialized⟩
    -- the database file is deleted, or deleting it has failed
    rcases hrows with ⟨hrows, -⟩ | hrows
    · exact hrows.trans ht.rows_eq
    · exact hrows
  unfold deleteCorruptedCacheFile
  rw [wp_bind, wp_modifyState, wp_bind]
  unfold onLru LruCacheByDataSizeStrategy.reset
  rw [wp_zoom, wp_modifyState, wp_bind]
  unfold deleteCacheFile
  rw [wp_bind, wp_onDisk]
  refine wp_mono (wp_deleteDatabaseFile s.disk) (fun _ d hd => ?_) fun _ _ he => he.elim
  obtain ⟨hlater, -, hrows⟩ := hd
  have hreset : Reset s { s with
      cacheInitialized := false
      lruCacheStrategy := LruCacheByDataSizeStrategy.construct s.lruCacheStrategy.maxSize
      disk := d } :=
    ⟨rfl, hrows.resolve_left fun h => h.2 hfiles, hlater, rfl, rfl, rfl⟩
  rw [wp_pure, wp_bind, wp_getState, wp_bind, wp_onDisk]
  unfold listDirectory
  rw [wp_bind]
  refine wp_mono (Disk.wp_fileCall d _) (fun _ d' hd' => ?_) fun e d' hd' =>
    absurd (hlater.filesWork hfiles) hd'.2.1
  rw [wp_bind, wp_getState, wp_pure, wp_bind]
  have hlisted : Reset s { s with
      cacheInitialized := false
      lruCacheStrategy := LruCacheByDataSizeStrategy.construct s.lruCacheStrategy.maxSize
      disk := d' } :=
    ⟨rfl, hd'.2.2.trans hreset.rows_eq, trans_of _ hlater hd'.1, rfl, rfl, rfl⟩
  refine wp_mono (hdelete hlisted) (fun _ t ht => ?_) fun _ _ he => he
  -- the body files are removed one by one
  refine wp_forEach (I := fun _ u => Reset s u) (fun path rest u hu => ?_) ht
  rw [wp_bind, wp_onDisk]
  refine wp_mono (wp_removeFileIfPresent u.disk path) (fun _ d'' hd'' => ?_) fun _ _ he => he.elim
  exact ⟨hu.lruCacheStrategy_eq, hd''.2.1.trans hu.rows_eq, trans_of _ hu.later hd''.1,
    hu.cacheRootDir_eq, hu.nextSerial_eq, hu.initialized⟩

/-- The three kinds of exceptions that a `catch` clause tells apart. -/
theorem wp_catchSql {corrupted failed : CacheExec α} {Q : α → HttpFileCache → Prop}
    {E : CacheException → HttpFileCache → Prop} {e : CacheException}
    (hcorrupted : (∃ message, e = .sql (.databaseCorrupt message)) →
      s.disk.FilesWork ∧ ∀ t, Reset s t → wp corrupted Q E t)
    (hfailed : wp failed Q E s) (hother : ∀ e', e = .http e' → E e s) :
    wp (catchSql corrupted failed e) Q E s := by
  cases e with
  | http e => exact hother e rfl
  | sql e =>
    cases e with
    | databaseCorrupt message =>
      obtain ⟨hfiles, hreset⟩ := hcorrupted ⟨message, rfl⟩
      show wp (deleteCorruptedCacheFile >>= fun _ => corrupted) Q E s
      rw [wp_bind]
      exact wp_mono (wp_deleteCorruptedCacheFile hfiles) (fun _ t ht => hreset t ht)
        fun _ _ he => he.elim
    | _ => exact hfailed

/-! ## Readers -/

/-- Only times of last access are changed. -/
structure Touched (s t : HttpFileCache) : Prop where
  lruCacheStrategy_eq : t.lruCacheStrategy = s.lruCacheStrategy
  later : Disk.Later s.disk t.disk
  files_eq : t.disk.files = s.disk.files
  rows : Disk.RowsLike s.disk t.disk
  cacheRootDir_eq : t.cacheRootDir = s.cacheRootDir
  nextSerial_eq : t.nextSerial = s.nextSerial
  initialized : t.cacheInitialized = s.cacheInitialized

/-- A lookup changes no entry. -/
theorem Touched.entry_eq (h : Touched s t) : t.entry = s.entry := by
  unfold entry
  rw [h.lruCacheStrategy_eq]

theorem rowsLike_of_eq {disk disk' : Disk} (h : disk'.row = disk.row) :
    Disk.RowsLike disk disk' := by
  intro k
  rw [h]
  refine ⟨rfl, fun row row' hrow hrow' => ?_⟩
  rw [hrow] at hrow'
  cases hrow'
  rfl

/-- A look at the disk is less than a lookup. -/
theorem touched_of_same {disk : Disk} (hsame : Disk.Same s.disk disk) :
    Touched s { s with disk := disk } :=
  ⟨rfl, hsame.1, hsame.2.1, rowsLike_of_eq hsame.row, rfl, rfl, rfl⟩

/-- What is read is in the row. -/
theorem wp_readMetadata (key : String) :
    wp (readMetadata json key)
      (fun metadata t => Touched s t ∧ ∀ m, metadata = some m →
        ∃ row, s.disk.row key = some row ∧ row.getMetadata json key = .ok m)
      (fun e t => Touched s t ∧ (Disk.DatabaseFails s.disk e ∨ ∃ e', e = .http e')) s := by
  unfold readMetadata
  rw [wp_bind, wp_onDisk]
  refine wp_mono (wp_getMetadata s.disk key) (fun metadata d hd => ?_) fun e d hd =>
    ⟨touched_of_same hd.1, hd.2⟩
  obtain ⟨hsame, -, hread⟩ := hd
  cases metadata with
  | none => exact ⟨touched_of_same hsame, nofun⟩
  | some metadata =>
    dsimp only
    rw [wp_bind, wp_onDisk]
    refine wp_mono (wp_updateLastAccessedSec d key) (fun _ d' hd' => ?_) fun e d' hd' => ?_
    · obtain ⟨hlater, hfiles, hlike⟩ := hd'
      refine ⟨⟨rfl, trans_of _ hsame.1 hlater, hfiles.trans hsame.2.1, ?_, rfl, rfl, rfl⟩, hread⟩
      unfold Disk.RowsLike at hlike ⊢
      rw [hsame.row] at hlike
      exact hlike
    · refine ⟨touched_of_same (trans_of _ hsame hd'.1), .inl ?_⟩
      exact hd'.2.imp (fun h => ⟨h.1, hsame.1.mem_database h.2⟩)
        fun h => ⟨h.1, hsame.1.mem_database h.2⟩

/-- What is opened is the file of the key. -/
theorem wp_createStreamFromCache (key : String) :
    wp (createStreamFromCache key)
      (fun content t => Touched s t ∧ ∀ c, content = some c →
        s.disk.file (makeCachedFilename s.cacheRootDir key) = some c)
      (fun _ _ => False) s := by
  unfold createStreamFromCache
  rw [wp_bind, wp_getState, wp_onDisk, wp_tryCatch, wp_bind]
  refine wp_mono (wp_exist s.disk _) (fun found d hd => ?_) fun e d hd =>
    wp_catchPoco hd.2 ⟨touched_of_same hd.1, nofun⟩
  obtain ⟨hsame, rfl⟩ := hd
  by_cases hfound : (s.disk.file (makeCachedFilename s.cacheRootDir key)).isSome = true
  · rw [hfound]
    show wp (File.open_ _ >>= _) _ _ d
    unfold File.open_
    rw [wp_bind, wp_bind]
    refine wp_mono (Disk.wp_fileCall d _) (fun _ d' hd' => ?_) fun e d' hd' =>
      wp_catchPoco hd'.2 ⟨touched_of_same (trans_of _ hsame hd'.1), nofun⟩
    have hall := trans_of _ hsame hd'
    obtain ⟨content, hcontent⟩ := Option.isSome_iff_exists.mp hfound
    have hopened : d'.files.find? (makeCachedFilename s.cacheRootDir key) = some content := by
      show d'.file _ = _
      rw [hall.file, hcontent]
    rw [wp_bind, wp_getState, hopened]
    refine ⟨touched_of_same hall, fun c hc => ?_⟩
    cases hc
    exact hcontent
  · rw [Bool.eq_false_iff.mpr hfound]
    exact ⟨touched_of_same hsame, nofun⟩

/-! ## Entries written over -/

/-- The entry of a key is another object, of the same size. -/
structure Rewritten (key : String) (info : HttpCacheInfo) (s t : HttpFileCache) : Prop where
  wf : t.lruCacheStrategy.Wf
  entry_eq : t.entry = Function.update s.entry key (some info)
  exact_total : Exact s.lruCacheStrategy → Exact t.lruCacheStrategy
  totalSize_eq : t.lruCacheStrategy.totalSize = s.lruCacheStrategy.totalSize
  maxSize_eq : t.lruCacheStrategy.maxSize = s.lruCacheStrategy.maxSize
  disk_eq : t.disk = s.disk
  cacheRootDir_eq : t.cacheRootDir = s.cacheRootDir
  nextSerial_eq : t.nextSerial = s.nextSerial
  initialized : t.cacheInitialized = s.cacheInitialized

/-- An entry rewritten without a change of size. -/
theorem rewritten_push {old : HttpCacheInfo} (hwf : s.lruCacheStrategy.Wf)
    (hentry : s.entry key = some old) (hkey : info.key = key)
    (hsize : info.dataSize = old.dataSize) :
    Rewritten key info s { s with lruCacheStrategy := s.lruCacheStrategy.push key info } where
  wf := hwf.wf_push hkey
  entry_eq := hwf.entry_push hkey
  exact_total := by
    intro h
    have hlt := s.lruCacheStrategy.totalSize.toNat_lt
    refine (h.push hkey ?_).1
    rw [weight_of_entry hentry]
    show _ + info.dataSize.toNat < 2 ^ 64 + old.dataSize.toNat
    rw [hsize]
    omega
  totalSize_eq := by
    obtain ⟨it, hfind⟩ := find_of_entry hentry
    show (s.lruCacheStrategy.unlist key).totalSize + info.dataSize = _
    unfold unlist
    rw [hfind, hsize]
    exact UInt64.sub_add_cancel _ _
  maxSize_eq := maxSize_push
  disk_eq := rfl
  cacheRootDir_eq := rfl
  nextSerial_eq := rfl
  initialized := rfl

/-- The reader is counted. -/
theorem wp_addReader (hwf : s.lruCacheStrategy.Wf) (hentry : s.entry key = some info)
    (hreserved : info.reservedRemove = false) (content : String) :
    wp (addReader key info content)
      (fun stream t => stream = some { content := content, serial := info.serial } ∧
        Rewritten key info.addDataRef s t)
      (fun _ _ => False) s := by
  obtain ⟨it, hfind⟩ := find_of_entry hentry
  unfold wp
  rw [exec_addReader hfind hreserved content]
  exact ⟨rfl, rewritten_push hwf hentry (hwf.find_eq_some_iff.mp hfind).2 rfl⟩

/-- The removal of an entry that is being read is reserved, which also counts as a use of it. -/
theorem wp_removeInternal_read (hfind : s.lruCacheStrategy.find key = some (it, info))
    (hbusy : info.dataRefCount ≠ 0) :
    wp (removeInternal key)
      (fun ret t => ret = true ∧ (info.reservedRemove = true ∧ t = s ∨
        info.reservedRemove = false ∧ t = { s with
          lruCacheStrategy := (s.lruCacheStrategy.assign it
            { info with reservedRemove := true }).push key { info with reservedRemove := true } }))
      (fun _ _ => False) s := by
  have hpos : info.dataRefCount > 0 := UInt32.pos_iff_ne_zero.mpr hbusy
  have hfind' : s.stores.1.find key = some (it, info) := hfind
  unfold removeInternal
  rw [wp_lru]
  unfold HttpLruCacheStrategy.remove
  rw [wp_bind, wp_getState, hfind']
  dsimp only
  rw [if_pos hpos]
  cases hreserved : info.reservedRemove with
  | true => exact ⟨rfl, .inl ⟨rfl, rfl⟩⟩
  | false =>
    have hassigned := find_assign hfind { info with reservedRemove := true }
    show wp (HttpLruCacheStrategy.reserveRemove (listener s.cacheRootDir) key it info >>= _) _ _ _
    rw [wp_bind]
    unfold HttpLruCacheStrategy.reserveRemove
    rw [wp_bind, wp_modifyState, wp_bind]
    unfold wp
    rw [HttpLruCacheStrategy.exec_reserve_update hassigned]
    exact ⟨rfl, .inr ⟨rfl, rfl⟩⟩

/-- An entry that is read is only marked. -/
theorem wp_removeInternal_busy (hwf : s.lruCacheStrategy.Wf) (hentry : s.entry key = some info)
    (hbusy : info.dataRefCount ≠ 0) :
    wp (removeInternal key)
      (fun ret t => ret = true ∧ Rewritten key { info with reservedRemove := true } s t)
      (fun _ _ => False) s := by
  obtain ⟨it, hfind⟩ := find_of_entry hentry
  have hkey : info.key = key := (hwf.find_eq_some_iff.mp hfind).2
  refine wp_mono (wp_removeInternal_read hfind hbusy) (fun ret t ht => ?_) fun _ _ he => he
  obtain ⟨rfl, ⟨hreserved, rfl⟩ | ⟨-, rfl⟩⟩ := ht
  -- the entry was reserved before
  · have hsame : ({ info with reservedRemove := true } : HttpCacheInfo) = info := by
      rw [← hreserved]
    rw [hsame]
    refine ⟨rfl, hwf, ?_, id, rfl, rfl, rfl, rfl, rfl, rfl⟩
    rw [← hentry, Function.update_eq_self]
  -- the entry is assigned in its place, and moved to the top
  · have hassigned := find_assign hfind { info with reservedRemove := true }
    have hwf' : (s.lruCacheStrategy.assign it { info with reservedRemove := true }).Wf :=
      hwf.wf_assign hfind hkey
    have hpush : Rewritten key { info with reservedRemove := true }
        { s with
          lruCacheStrategy := s.lruCacheStrategy.assign it { info with reservedRemove := true } }
        { s with
          lruCacheStrategy :=
            (s.lruCacheStrategy.assign it { info with reservedRemove := true }).push key
              { info with reservedRemove := true } } :=
      rewritten_push hwf' (entry_of_find hassigned) hkey rfl
    refine ⟨rfl, hpush.wf, ?_, fun h => hpush.exact_total ⟨hwf', ?_⟩, hpush.totalSize_eq,
      hpush.maxSize_eq, rfl, rfl, rfl, rfl⟩
    · refine hpush.entry_eq.trans ?_
      show Function.update (entry _) key _ = _
      have hassign : (s.lruCacheStrategy.assign it { info with reservedRemove := true }).entry =
          Function.update s.entry key (some { info with reservedRemove := true }) :=
        hwf.entry_assign hfind _
      unfold entry at hassign ⊢
      rw [hassign, Function.update_idem]
    · have hsizes : sizes (s.lruCacheStrategy.assign it
          { info with reservedRemove := true }).lruList.values =
          sizes s.lruCacheStrategy.lruList.values := sizes_assign hfind rfl
      exact h.total.trans hsizes.symm

/-- The removal of an entry that nobody reads. -/
theorem wp_removeInternal_idle (hwf : s.lruCacheStrategy.Wf) (hfiles : s.disk.FilesWork)
    (hidle : IsIdle s.lruCacheStrategy key) :
    wp (removeInternal key)
      (fun ret t => Trimmed (fun k _ => k = key) s t ∧
        (ret = true → stored s.cacheRootDir t.stores key = (none, none, none)) ∧
        (ret = false → t.lruCacheStrategy = s.lruCacheStrategy) ∧
        (s.disk.faults.database.headD .none = .none → (s.entry key).isSome →
          (s.disk.row key).isSome → ret = true))
      (fun e t => Trimmed (fun k _ => k = key) s t ∧ CorruptFound s.disk e ∧
        s.disk.faults.database.headD .none ≠ .none) s := by
  unfold removeInternal
  rw [wp_lru]
  exact wp_mono (wp_remove_idle (s := s.stores) hwf hfiles hidle)
    (fun _ _ hp => ⟨trimmed_of_trims hp.1, hp.2⟩) fun _ _ hp => ⟨trimmed_of_trims hp.1, hp.2⟩

/-- `makeSpace`, when it either can remove entries or need not. -/
theorem wp_makeSpace_trimmed (hwf : s.lruCacheStrategy.Wf) (requestSize : UInt64)
    (hfiles : s.disk.FilesWork ∨
      s.lruCacheStrategy.totalSize + requestSize ≤ s.lruCacheStrategy.maxSize) :
    wp (lru (HttpLruCacheStrategy.makeSpace · requestSize))
      (fun _ t => Trimmed (fun _ info => info.dataRefCount = 0) s t)
      (fun e t => Trimmed (fun _ info => info.dataRefCount = 0) s t ∧ CorruptFound s.disk e) s := by
  rw [wp_lru]
  rcases hfiles with hwork | hspace
  · refine wp_mono (wp_makeSpaceFor_idle (s := s.stores) hwf hwork requestSize) (fun _ p hp => ?_)
      fun e p hp => ⟨?_, hp.2⟩
    · exact trimmed_of_trims (hp.mono fun _ _ _ h => h.1)
    · exact trimmed_of_trims (hp.1.mono fun _ _ _ h => h.1)
  · have hspace : s.stores.1.totalSize + requestSize ≤ s.stores.1.maxSize := hspace
    exact (wp_makeSpaceFor_space hspace).mpr (trimmed_refl hwf)

/-- It answers whether the entries that are being read leave room. -/
theorem wp_makeSpace_held (hexact : Exact s.lruCacheStrategy) (requestSize : UInt64)
    (hfits : s.lruCacheStrategy.totalSize.toNat + requestSize.toNat < 2 ^ 64)
    (hfiles : s.disk.FilesWork ∨ s.lruCacheStrategy.totalSize.toNat + requestSize.toNat ≤
      s.lruCacheStrategy.maxSize.toNat) :
    wp (lru (HttpLruCacheStrategy.makeSpace · requestSize))
      (fun ret t => Trimmed (fun _ info => info.dataRefCount = 0) s t ∧
        (ret = true ↔ heldSize (fun info => info.dataRefCount = 0) s.lruCacheStrategy +
          requestSize.toNat ≤ s.lruCacheStrategy.maxSize.toNat))
      (fun e t => Trimmed (fun _ info => info.dataRefCount = 0) s t ∧ CorruptFound s.disk e) s := by
  have hanswer : wp (lru (HttpLruCacheStrategy.makeSpace · requestSize))
      (fun ret _ => ret = true ↔ heldSize (fun info => info.dataRefCount = 0) s.lruCacheStrategy +
        requestSize.toNat ≤ s.lruCacheStrategy.maxSize.toNat) (fun _ _ => True) s :=
    wp_lru.mpr (wp_makeSpaceFor_answer (s := s.stores) (fun _ _ => rfl) hexact hfits)
  have hspace : s.disk.FilesWork ∨
      s.lruCacheStrategy.totalSize + requestSize ≤ s.lruCacheStrategy.maxSize := by
    refine hfiles.imp_right fun hle => ?_
    rw [UInt64.le_iff_toNat_le, UInt64.toNat_add]
    omega
  exact wp_mono (wp_and (wp_makeSpace_trimmed hexact.wf requestSize hspace) hanswer)
    (fun _ _ h => h) fun _ _ h => h.1

/-- A new entry of a key that is not listed: pushed, when `makeSpace` has found the room. -/
theorem wp_addOrUpdate_new {Q : Bool → HttpFileCache → Prop}
    {E : CacheException → HttpFileCache → Prop} (hentry : s.entry key = none)
    (hspace : wp (lru (HttpLruCacheStrategy.makeSpace · info.dataSize))
      (fun ret u => Q ret (if ret then
        { u with lruCacheStrategy := u.lruCacheStrategy.push key info } else u)) E s) :
    wp (lru fun listener =>
      addOrUpdate (HttpLruCacheStrategy.virtuals listener) key info) Q E s := by
  rw [wp_lru] at hspace ⊢
  unfold addOrUpdate spaceFor
  rw [wp_bind, wp_bind, wp_getState]
  have hfind : s.stores.1.find key = none := entry_eq_none_iff.mp hentry
  rw [hfind]
  refine wp_mono hspace (fun ret p hp => ?_) fun _ _ he => he
  cases ret with
  | false => exact hp
  | true => exact hp

/-- An entry written over by one of its size; with the last release of a removal it is removed. -/
theorem wp_update_listed {old : HttpCacheInfo} {Q : Bool → HttpFileCache → Prop}
    {E : CacheException → HttpFileCache → Prop} (hentry : s.entry key = some old)
    (hsize : info.dataSize = old.dataSize)
    (hlast : info.dataRefCount = 0 → info.reservedRemove = true →
      wp (lru (LruCacheByDataSizeStrategy.remove · key)) Q E
        { s with lruCacheStrategy := s.lruCacheStrategy.push key info })
    (hother : ¬(info.dataRefCount = 0 ∧ info.reservedRemove = true) →
      Q true { s with lruCacheStrategy := s.lruCacheStrategy.push key info }) :
    wp (lru (HttpLruCacheStrategy.update · key info)) Q E s := by
  obtain ⟨it, hfind⟩ := find_of_entry hentry
  by_cases hremove : info.dataRefCount = 0 ∧ info.reservedRemove = true
  · have hrun := exec_lru_update hfind hsize
    rw [if_pos hremove] at hrun
    unfold wp
    rw [hrun]
    exact hlast hremove.1 hremove.2
  · have hrun := exec_lru_update hfind hsize
    rw [if_neg hremove] at hrun
    unfold wp
    rw [hrun]
    exact hother hremove

/-- An entry that is not reserved for removal. -/
theorem wp_update_unlisted {Q : Bool → HttpFileCache → Prop}
    {E : CacheException → HttpFileCache → Prop} (hreserved : info.reservedRemove = false)
    (h : wp (lru fun listener =>
      addOrUpdate (HttpLruCacheStrategy.virtuals listener) key info) Q E s) :
    wp (lru (HttpLruCacheStrategy.update · key info)) Q E s := by
  rw [wp_lru] at h ⊢
  unfold HttpLruCacheStrategy.update LruCacheByDataSizeStrategy.update
  rw [wp_bind, wp_bind, wp_tell]
  show wp (addOrUpdate _ key info) _ _ s.stores
  refine wp_mono h (fun ret p hp => ?_) fun _ _ he => he
  cases ret with
  | false => exact hp
  | true =>
    show wp (if info.dataRefCount = 0 ∧ info.reservedRemove = true then _ else _) _ _ _
    rw [if_neg fun h => absurd (hreserved.symm.trans h.2) Bool.false_ne_true]
    exact hp

/-- Nothing that the listener does on `onAdd` refuses it. -/
theorem wp_add_unlisted {Q : Bool → HttpFileCache → Prop}
    {E : CacheException → HttpFileCache → Prop} (h : wp (lru fun listener =>
      addOrUpdate (HttpLruCacheStrategy.virtuals listener) key info) Q E s) :
    wp (lru (HttpLruCacheStrategy.add · key info)) Q E s := by
  rw [wp_lru] at h ⊢
  unfold HttpLruCacheStrategy.add LruCacheByDataSizeStrategy.add
  rw [wp_bind, wp_tell]
  exact h

/-- A new entry of a key that is not listed, when there is room for it. -/
theorem wp_update_new (hexact : Exact s.lruCacheStrategy) (hentry : s.entry key = none)
    (hreserved : info.reservedRemove = false)
    (hfits : s.lruCacheStrategy.totalSize.toNat + info.dataSize.toNat < 2 ^ 64)
    (hfiles : s.disk.FilesWork ∨ s.lruCacheStrategy.totalSize.toNat + info.dataSize.toNat ≤
      s.lruCacheStrategy.maxSize.toNat)
    (hheld : heldSize (fun info => info.dataRefCount = 0) s.lruCacheStrategy +
      info.dataSize.toNat ≤ s.lruCacheStrategy.maxSize.toNat) :
    wp (lru (HttpLruCacheStrategy.update · key info))
      (fun ret t => ∃ u, Trimmed (fun _ info => info.dataRefCount = 0) s u ∧ ret = true ∧
        t = { u with lruCacheStrategy := u.lruCacheStrategy.push key info })
      (fun e t => Trimmed (fun _ info => info.dataRefCount = 0) s t ∧ CorruptFound s.disk e) s := by
  refine wp_update_unlisted hreserved (wp_addOrUpdate_new hentry ?_)
  refine wp_mono (wp_makeSpace_held hexact _ hfits hfiles) (fun ret u hu => ?_) fun _ _ he => he
  have htrue : ret = true := hu.2.mpr hheld
  subst htrue
  exact ⟨u, hu.1, rfl, rfl⟩

/-! ## The file and the row of one key -/

/-- The file of a key is a body file. -/
theorem isBodyFile_makeCachedFilename (cacheRootDir key : String) :
    isBodyFile cacheRootDir (makeCachedFilename cacheRootDir key) = true := by
  unfold isBodyFile makeCachedFilename
  rw [Bool.and_eq_true, List.isPrefixOf_iff_prefix, List.isSuffixOf_iff_suffix]
  simp only [String.toList_append, List.append_assoc]
  exact ⟨⟨_, by simp only [List.append_assoc]; rfl⟩, ⟨_, by simp only [← List.append_assoc]; rfl⟩⟩

/-- No other path is one. -/
theorem ne_makeCachedFilename {cacheRootDir path : String}
    (hpath : isBodyFile cacheRootDir path = false) (key : String) :
    path ≠ makeCachedFilename cacheRootDir key := by
  intro heq
  have htrue := isBodyFile_makeCachedFilename cacheRootDir key
  rw [← heq, hpath] at htrue
  cases htrue

/-- The files of other keys stay as they are. -/
def OthersKept (cacheRootDir key : String) (disk disk' : Disk) : Prop :=
  Disk.Later disk disk' ∧
    ∀ k, k ≠ key → disk'.file (makeCachedFilename cacheRootDir k) =
      disk.file (makeCachedFilename cacheRootDir k)

/-- A file that is no body file becomes the body file of a key. -/
theorem othersKept_of_movesFile {path : String} {cacheRootDir : String} {disk disk' : Disk}
    {ret : Bool} (hpath : isBodyFile cacheRootDir path = false)
    (h : MovesFile path (makeCachedFilename cacheRootDir key) disk ret disk') :
    OthersKept cacheRootDir key disk disk' := by
  obtain ⟨hlater, -, hmoved⟩ := h
  refine ⟨hlater, fun k hk => ?_⟩
  have hother : makeCachedFilename cacheRootDir k ≠ makeCachedFilename cacheRootDir key :=
    fun h => hk (makeCachedFilename_injective _ h)
  cases ret with
  | false =>
    rcases hmoved.2 with h | h
    · rw [h]
    · rw [h, Function.update_of_ne hother]
  | true =>
    obtain ⟨content, -, hfile⟩ := hmoved
    rw [hfile, Function.update_of_ne hother,
      Function.update_of_ne (ne_makeCachedFilename hpath k).symm]

/-- The row is written, or the new body file is taken away again. -/
theorem wp_storeMetadata {httpCacheMetadata : HttpCacheMetadata} (hstarted : s.Started)
    (hcorrupt : Fault.corrupt ∉ s.disk.faults.database) (key : String) :
    wp (storeMetadata json httpCacheMetadata (makeCachedFilename s.cacheRootDir key))
      (fun ret t => ∃ disk, t = { s with disk := disk } ∧
        OthersKept s.cacheRootDir key s.disk disk ∧ if ret then
          disk.files = s.disk.files ∧ disk.row = Function.update s.disk.row
            httpCacheMetadata.key (some (httpCacheMetadata.toRow json s.disk.nowAtEpoch))
        else disk.row = s.disk.row)
      (fun _ _ => False) s := by
  unfold storeMetadata
  rw [wp_tryCatch, wp_started hstarted, wp_bind, wp_onDisk]
  refine wp_mono (wp_updateMetadata s.disk httpCacheMetadata) (fun _ d hd => ?_) fun e d hd => ?_
  · refine ⟨d, rfl, ⟨hd.1, fun k _ => ?_⟩, hd.2⟩
    exact congrFun (congrArg SortedMap.find? hd.2.1) _
  · obtain ⟨hsame, hfails⟩ := hd
    rcases hfails with ⟨-, hmem⟩ | ⟨⟨message, rfl⟩, -⟩
    · exact absurd hmem hcorrupt
    · show wp (onDisk _ >>= _) _ _ { s with disk := d }
      rw [wp_bind, wp_onDisk]
      refine wp_mono (wp_removeFileIfPresent d _) (fun _ d' hd' => ?_) fun _ _ he => he.elim
      obtain ⟨hlater, hrows, -, hfile⟩ := hd'
      refine ⟨d', rfl, ⟨trans_of _ hsame.1 hlater, fun k hk => ?_⟩, ?_⟩
      · rcases hfile with h | ⟨-, h⟩
        · rw [h, Function.update_of_ne (fun h => hk (makeCachedFilename_injective _ h)),
            hsame.file]
        · rw [h, hsame.file]
      · exact (congrArg SortedMap.find? hrows).trans hsame.row

end EasyHttp.HttpFileCache
