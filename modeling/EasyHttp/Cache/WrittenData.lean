import EasyHttp.Cache.CacheReaders
import EasyHttp.Cache.HttpFileCacheSpecs

/-!
# What is written on the disk

Rows are written by `put` and `putMetadata` only; all other calls leave each row as it was but for
the time of its last access, or take it away. The cache writes no file: it moves and removes those
that are there. So what holds of every row and of every file that is written holds of all.

* `AllRows`, `AllFiles`: every row is as `P` allows, every content of a file as `B` allows;
* `keeps_put` and its like: the calls of the cache, whatever fails in them;
* `wp_getMetadata_allRows`: what `getMetadata` reads was written;
* `step_allWritten`: a step of a cache with its readers.
-/

namespace EasyHttp.WrittenData

open Exec HttpFileCache

/-- Each row has the property. -/
def AllRows (P : String → Row → Prop) (disk : Disk) : Prop :=
  ∀ k row, disk.row k = some row → P k row

/-- The time of the last access plays no part. -/
def IgnoresAccess (P : String → Row → Prop) : Prop :=
  ∀ k row row', row.Like row' → P k row → P k row'

/-- Each file has the property. -/
def AllFiles (B : String → Prop) (disk : Disk) : Prop :=
  ∀ path content, disk.file path = some content → B content

/-- `P` allows all rows still, and `B` all files. -/
def Still (P : String → Row → Prop) (B : String → Prop) (disk disk' : Disk) : Prop :=
  (AllRows P disk → AllRows P disk') ∧ (AllFiles B disk → AllFiles B disk')

variable {P : String → Row → Prop} {B : String → Prop} {json : PocoJson} {disk disk' : Disk}
  {key : String} {α : Type} {s t : HttpFileCache}

instance : Std.Refl (Still P B) := ⟨fun _ => ⟨id, id⟩⟩

instance : IsTrans Disk (Still P B) :=
  ⟨fun _ _ _ hst htu => ⟨htu.1 ∘ hst.1, htu.2 ∘ hst.2⟩⟩

/-- The same rows are enough. -/
theorem allRows_of_row (h : disk'.row = disk.row) : AllRows P disk → AllRows P disk' := by
  intro hall k row hrow
  rw [h] at hrow
  exact hall k row hrow

/-- Every content was there before. -/
theorem allFiles_of_file
    (h : ∀ path content, disk'.file path = some content → ∃ path', disk.file path' = some content) :
    AllFiles B disk → AllFiles B disk' := by
  intro hall path content hfile
  obtain ⟨path', hbefore⟩ := h path content hfile
  exact hall path' content hbefore

theorem allFiles_of_files (h : disk'.files = disk.files) : AllFiles B disk → AllFiles B disk' := by
  refine allFiles_of_file fun path content hfile => ⟨path, ?_⟩
  unfold Disk.file at hfile ⊢
  rw [← h]
  exact hfile

/-- A look at the disk writes nothing. -/
theorem still_of_same (h : Disk.Same disk disk') : Still P B disk disk' :=
  ⟨allRows_of_row h.row, allFiles_of_files h.2.1⟩

/-! ## The disk -/

theorem still_databaseCall : Keeps (Still P B) Disk.databaseCall :=
  keeps_iff_wp.mpr fun disk => wp_mono (Disk.wp_databaseCall disk)
    (fun _ _ h => still_of_same h.1) fun _ _ h => still_of_same h.1

theorem still_removeFileIfPresent (path : String) :
    Keeps (Still P B) (FileUtil.removeFileIfPresent path) := by
  refine keeps_iff_wp.mpr fun disk => wp_mono (wp_removeFileIfPresent disk path)
    (fun _ d h => ⟨allRows_of_row (congrArg SortedMap.find? h.2.1), ?_⟩) fun _ _ h => h.elim
  refine allFiles_of_file fun path' content hfile => ⟨path', ?_⟩
  rcases h.2.2.2 with hremoved | ⟨-, hkept⟩
  · rw [hremoved, Function.update_apply] at hfile
    split at hfile
    · cases hfile
    · exact hfile
  · rw [hkept] at hfile
    exact hfile

/-- What is moved was there. -/
theorem still_moveFile (sourceFile destinationFile : String) :
    Keeps (Still P B) (FileUtil.moveFile sourceFile destinationFile) := by
  refine keeps_iff_wp.mpr fun disk => wp_mono (wp_moveFile disk sourceFile destinationFile)
    (fun _ d h => ⟨allRows_of_row (congrArg SortedMap.find? h.2.1), ?_⟩)
      fun _ _ h => still_of_same h.1
  have hfiles := h.2.2
  refine allFiles_of_file fun path content hfile => ?_
  split at hfiles
  · obtain ⟨moved, hsource, hmoved⟩ := hfiles
    rw [hmoved] at hfile
    by_cases hdestination : path = destinationFile
    · rw [hdestination, Function.update_self] at hfile
      exact ⟨sourceFile, hsource.trans hfile⟩
    rw [Function.update_of_ne hdestination] at hfile
    by_cases hleft : path = sourceFile
    · rw [hleft, Function.update_self] at hfile
      cases hfile
    · rw [Function.update_of_ne hleft] at hfile
      exact ⟨path, hfile⟩
  · rcases hfiles.2 with hkept | hremoved
    · rw [hkept] at hfile
      exact ⟨path, hfile⟩
    · rw [hremoved, Function.update_apply] at hfile
      split at hfile
      · cases hfile
      · exact ⟨path, hfile⟩

theorem still_createDirsIfAbsent (dir : String) :
    Keeps (Still P B) (FileUtil.createDirsIfAbsent dir) :=
  keeps_iff_wp.mpr fun disk => wp_mono (wp_createDirsIfAbsent disk dir)
    (fun _ _ h => still_of_same h.1) fun _ _ h => h.elim

theorem still_deleteMetadata (key : String) :
    Keeps (Still P B) (HttpCacheDatabase.deleteMetadata key) := by
  refine keeps_iff_wp.mpr fun disk => wp_mono (wp_deleteMetadata disk key)
    (fun _ d hd => ⟨?_, allFiles_of_files hd.2.1⟩) fun _ _ h => still_of_same h.1
  intro hall k row hrow
  rw [hd.2.2.2.1, Function.update_apply] at hrow
  split at hrow
  · cases hrow
  · exact hall k row hrow

/-- The new row is one that may be written. -/
theorem still_updateMetadata {httpCacheMetadata : HttpCacheMetadata}
    (hP : ∀ nowAtEpoch, P httpCacheMetadata.key (httpCacheMetadata.toRow json nowAtEpoch)) :
    Keeps (Still P B) (HttpCacheDatabase.updateMetadata json httpCacheMetadata) := by
  refine keeps_iff_wp.mpr fun disk => wp_mono (wp_updateMetadata disk httpCacheMetadata)
    (fun _ d hd => ⟨?_, allFiles_of_files hd.2.1⟩) fun _ _ h => still_of_same h.1
  intro hall k row hrow
  rw [hd.2.2, Function.update_apply] at hrow
  split at hrow
  · rename_i hk
    cases hrow
    subst hk
    exact hP _
  · exact hall k row hrow

/-- A property that ignores the last access is not changed by one. -/
theorem still_updateLastAccessedSec (hP : IgnoresAccess P) (key : String) :
    Keeps (Still P B) (HttpCacheDatabase.updateLastAccessedSec key) := by
  refine keeps_iff_wp.mpr fun disk => wp_mono (wp_updateLastAccessedSec disk key)
    (fun _ d hd => ⟨?_, allFiles_of_files hd.2.1⟩) fun _ _ h => still_of_same h.1
  intro hall k row' hrow'
  obtain ⟨hsome, hlike⟩ := hd.2.2 k
  rw [hrow'] at hsome
  obtain ⟨row, hrow⟩ := Option.isSome_iff_exists.mp hsome.symm
  exact hP k row row' (hlike row row' hrow hrow') (hall k row hrow)

theorem still_getMetadata (key : String) :
    Keeps (Still P B) (HttpCacheDatabase.getMetadata json key) :=
  keeps_iff_wp.mpr fun disk => wp_mono (wp_getMetadata disk key)
    (fun _ _ h => still_of_same h.1) fun _ _ h => still_of_same h.1

theorem still_queryAll : Keeps (Still P B) HttpCacheDatabase.queryAll :=
  keeps_iff_wp.mpr fun disk => wp_mono (wp_queryAll disk)
    (fun _ _ h => still_of_same h.1) fun _ _ h => still_of_same h.1

theorem still_deleteDatabaseFile : Keeps (Still P B) HttpCacheDatabase.deleteDatabaseFile := by
  refine keeps_iff_wp.mpr fun disk => wp_mono (wp_deleteDatabaseFile disk)
    (fun _ d hd => ⟨?_, allFiles_of_files hd.2.1⟩) fun _ _ h => h.elim
  rcases hd.2.2 with ⟨hrows, -⟩ | hempty
  · exact allRows_of_row (congrArg SortedMap.find? hrows)
  · intro _ k row hrow
    have hnone : d.row k = none := by
      unfold Disk.row
      rw [hempty, SortedMap.find?_empty]
    rw [hnone] at hrow
    cases hrow

theorem still_fileCall (message : String) : Keeps (Still P B) (Disk.fileCall message) :=
  keeps_iff_wp.mpr fun disk => wp_mono (Disk.wp_fileCall disk message)
    (fun _ _ h => still_of_same h) fun _ _ h => still_of_same h.1

/-! ## The list -/

/-- The same of the disk behind the list. -/
def StillBehind (P : String → Row → Prop) (B : String → Prop) (p p' : Stores) : Prop :=
  Still P B p.2 p'.2

instance : Std.Refl (StillBehind P B) := ⟨fun p => refl_of (Still P B) p.2⟩

instance : IsTrans Stores (StillBehind P B) := ⟨fun _ _ _ hst htu => trans_of (Still P B) hst htu⟩

theorem still_onRemove (cacheRootDir key : String) :
    Keeps (Still P B) (onRemove cacheRootDir key) := by
  unfold onRemove
  refine keeps_bind (keeps_tryCatch (still_deleteMetadata key) fun e => ?_) fun deleted => ?_
  · split
    · exact keeps_throw _
    · exact keeps_pure _
    · exact keeps_throw _
  · split
    · exact keeps_pure _
    · exact still_removeFileIfPresent _

/-- A callback that changes nothing in the rows. -/
theorem still_tell {x : DiskExec α} (hx : Keeps (Still P B) x) :
    Keeps (StillBehind P B) (LruCacheByDataSizeStrategy.tell x :
      LruExec CacheException Disk HttpCacheInfo α) := fun p => hx p.2

/-- The callbacks of the list write no row and no file. -/
theorem changesFor_still (cacheRootDir : String) :
    HttpLruCacheStrategy.ChangesFor (listener cacheRootDir) (fun _ _ => True)
      (StillBehind P B) where
  onAdd := fun _ _ => still_tell (keeps_pure true)
  onUpdate := fun _ _ => still_tell (keeps_pure true)
  onRemove := fun key => still_tell (still_onRemove cacheRootDir key)
  onGet := fun _ _ => still_tell (keeps_pure true)
  drop := fun p _ => refl_of (Still P B) p.2
  push := fun p _ _ _ => refl_of (Still P B) p.2
  touch := fun p _ _ _ _ => refl_of (Still P B) p.2
  reset := fun p => refl_of (Still P B) p.2
  reserve := by
    intro p key it info hfind
    have hassigned := LruCacheByDataSizeStrategy.find_assign hfind
      { info with reservedRemove := true }
    unfold HttpLruCacheStrategy.reserveRemove
    rw [exec_bind_ok (exec_modifyState _ p), exec_discard,
      HttpLruCacheStrategy.exec_reserve_update hassigned]
    exact refl_of (Still P B) p.2

/-! ## The calls of the cache -/

/-- The same of the disk of the cache. -/
def StillCached (P : String → Row → Prop) (B : String → Prop) (s t : HttpFileCache) : Prop :=
  Still P B s.disk t.disk

instance : Std.Refl (StillCached P B) := ⟨fun s => refl_of (Still P B) s.disk⟩

instance : IsTrans HttpFileCache (StillCached P B) :=
  ⟨fun _ _ _ hst htu => trans_of (Still P B) hst htu⟩

theorem keeps_onDisk {x : DiskExec α} (hx : Keeps (Still P B) x) :
    Keeps (StillCached P B) (onDisk x) := fun s => hx s.disk

theorem keeps_lru {x : LruListener CacheException Disk HttpCacheInfo →
      LruExec CacheException Disk HttpCacheInfo α}
    (hx : ∀ cacheRootDir, Keeps (StillBehind P B) (x (listener cacheRootDir))) :
    Keeps (StillCached P B) (lru x) :=
  keeps_bind keeps_getState fun c s => hx c.cacheRootDir (s.lruCacheStrategy, s.disk)

theorem keeps_newHttpCacheInfo (key : String) (dataSize : UInt64) :
    Keeps (StillCached P B) (newHttpCacheInfo key dataSize) :=
  keeps_bind keeps_getState fun _ =>
    keeps_bind (keeps_modifyState fun s => refl_of (Still P B) s.disk) fun _ => keeps_pure _

theorem keeps_makeSpace (requestSize : UInt64) :
    Keeps (StillCached P B) (lru (HttpLruCacheStrategy.makeSpace · requestSize)) :=
  keeps_lru fun dir => (changesFor_still dir).keeps_makeSpace requestSize

theorem keeps_add (key : String) (info : HttpCacheInfo) :
    Keeps (StillCached P B) (lru (HttpLruCacheStrategy.add · key info)) :=
  keeps_lru fun dir => (changesFor_still dir).keeps_add trivial

theorem keeps_update (key : String) (info : HttpCacheInfo) :
    Keeps (StillCached P B) (lru (HttpLruCacheStrategy.update · key info)) :=
  keeps_lru fun dir => (changesFor_still dir).keeps_update trivial

theorem keeps_lookup (key : String) :
    Keeps (StillCached P B) (lru (HttpLruCacheStrategy.get · key)) :=
  keeps_lru fun dir => (changesFor_still dir).keeps_get key

theorem keeps_removeInternal (key : String) : Keeps (StillCached P B) (removeInternal key) :=
  keeps_lru fun dir => (changesFor_still dir).keeps_remove key

theorem keeps_initializeCache : Keeps (StillCached P B) initializeCache := by
  unfold initializeCache enumerate onEnumerate
  refine keeps_bind keeps_getState fun c => ?_
  split
  · refine keeps_bind keeps_getState fun c => keeps_bind
      (keeps_onDisk (still_createDirsIfAbsent _)) fun created => ?_
    split
    · refine keeps_bind (keeps_bind (keeps_onDisk still_queryAll) fun params =>
        keeps_forEach (fun param => ?_) params) fun _ =>
          keeps_modifyState fun s => refl_of (Still P B) s.disk
      refine keeps_bind (keeps_onDisk still_databaseCall) fun _ => keeps_bind ?_ fun _ =>
        keeps_pure ()
      refine keeps_bind (keeps_makeSpace _) fun space => ?_
      split
      · exact keeps_bind (keeps_newHttpCacheInfo _ _) fun info =>
          keeps_bind (keeps_add _ _) fun _ => keeps_pure true
      · exact keeps_pure false
    · exact keeps_pure ()
  · exact keeps_pure ()

theorem keeps_deleteCacheFile : Keeps (StillCached P B) deleteCacheFile :=
  keeps_bind (keeps_onDisk still_deleteDatabaseFile) fun _ => keeps_pure ()

theorem keeps_deleteCorruptedCacheFile : Keeps (StillCached P B) deleteCorruptedCacheFile := by
  have hlist : ∀ dir, Keeps (Still P B) (listDirectory dir) := fun dir =>
    keeps_bind (still_fileCall dir) fun _ => keeps_bind keeps_getState fun _ => keeps_pure _
  unfold deleteCorruptedCacheFile
  refine keeps_bind (keeps_modifyState fun s => refl_of (Still P B) s.disk) fun _ => ?_
  refine keeps_bind (fun s => refl_of (Still P B) s.disk) fun _ => ?_
  refine keeps_bind keeps_deleteCacheFile fun _ => keeps_bind keeps_getState fun c => ?_
  refine keeps_bind (keeps_onDisk (hlist _)) fun paths => ?_
  refine keeps_bind keeps_deleteCacheFile fun _ => keeps_forEach (fun path => ?_) paths
  exact keeps_bind (keeps_onDisk (still_removeFileIfPresent path)) fun _ => keeps_pure ()

theorem keeps_catchSql {corrupted failed : CacheExec α}
    (hcorrupted : Keeps (StillCached P B) corrupted) (hfailed : Keeps (StillCached P B) failed)
    (e : CacheException) : Keeps (StillCached P B) (catchSql corrupted failed e) := by
  unfold catchSql
  split
  · exact keeps_bind keeps_deleteCorruptedCacheFile fun _ => hcorrupted
  · exact hfailed
  · exact keeps_throw e

/-- A call that begins with the initialization. -/
theorem keeps_call {x corrupted failed : CacheExec α} (hx : Keeps (StillCached P B) x)
    (hcorrupted : Keeps (StillCached P B) corrupted) (hfailed : Keeps (StillCached P B) failed) :
    Keeps (StillCached P B) (Exec.tryCatch (initializeCache >>= fun _ => x)
      (catchSql corrupted failed)) :=
  keeps_tryCatch (keeps_bind keeps_initializeCache fun _ => hx) (keeps_catchSql hcorrupted hfailed)

theorem keeps_readMetadata (hP : IgnoresAccess P) (key : String) :
    Keeps (StillCached P B) (readMetadata json key) := by
  unfold readMetadata
  refine keeps_bind (keeps_onDisk (still_getMetadata key)) fun metadata => ?_
  split
  · exact keeps_pure none
  · exact keeps_bind (keeps_onDisk (still_updateLastAccessedSec hP key)) fun _ => keeps_pure _

theorem keeps_getMetadata (hP : IgnoresAccess P) (key : String) :
    Keeps (StillCached P B) (getMetadata json key) := by
  refine keeps_call (keeps_bind (keeps_lookup key) fun found => ?_) (keeps_pure none)
    (keeps_pure none)
  split
  · exact keeps_pure none
  · split
    · exact keeps_pure none
    · exact keeps_readMetadata hP key

theorem keeps_createStreamFromCache (key : String) :
    Keeps (StillCached P B) (createStreamFromCache key) := by
  unfold createStreamFromCache File.exist File.open_
  refine keeps_bind keeps_getState fun c => keeps_onDisk (keeps_tryCatch ?_ fun e => ?_)
  · refine keeps_bind (keeps_bind (still_fileCall _) fun _ => keeps_bind keeps_getState fun _ =>
      keeps_pure _) fun found => ?_
    split
    · exact keeps_pure none
    · refine keeps_bind (keeps_bind (still_fileCall _) fun _ =>
        keeps_bind keeps_getState fun d => ?_) fun _ => keeps_pure _
      split
      · exact keeps_pure _
      · exact keeps_throw _
  · unfold catchPoco
    split
    · exact keeps_pure none
    · exact keeps_throw _

theorem keeps_addReader (key : String) (info : HttpCacheInfo) (content : String) :
    Keeps (StillCached P B) (addReader key info content) :=
  keeps_bind (keeps_update key _) fun _ => keeps_pure _

theorem keeps_getData (key : String) : Keeps (StillCached P B) (getData key) := by
  refine keeps_call (keeps_bind (keeps_lookup key) fun found => ?_) (keeps_pure none)
    (keeps_pure none)
  split
  · exact keeps_pure none
  · split
    · exact keeps_pure none
    · refine keeps_bind (keeps_createStreamFromCache key) fun content => ?_
      split
      · exact keeps_pure none
      · exact keeps_addReader key _ _

theorem keeps_get (hP : IgnoresAccess P) (key : String) :
    Keeps (StillCached P B) (get json key) := by
  refine keeps_call (keeps_bind (keeps_lookup key) fun found => ?_) (keeps_pure none)
    (keeps_pure none)
  split
  · exact keeps_pure none
  · split
    · exact keeps_pure none
    · refine keeps_bind (keeps_readMetadata hP key) fun metadata => ?_
      split
      · exact keeps_pure none
      · refine keeps_bind (keeps_createStreamFromCache key) fun content => ?_
        split
        · exact keeps_pure none
        · exact keeps_bind (keeps_addReader key _ _) fun _ => keeps_pure _

theorem keeps_releaseData (key : String) : Keeps (StillCached P B) (releaseData key) := by
  unfold releaseData
  refine keeps_bind (keeps_lookup key) fun found => ?_
  split
  · exact keeps_pure ()
  · split
    · exact keeps_pure ()
    · exact keeps_tryCatch (keeps_bind (keeps_update key _) fun _ => keeps_pure ())
        (keeps_catchSql (keeps_pure ()) (keeps_pure ()))

theorem keeps_putMetadata {httpCacheMetadata : HttpCacheMetadata} (key : String)
    (hP : ∀ nowAtEpoch, P httpCacheMetadata.key (httpCacheMetadata.toRow json nowAtEpoch)) :
    Keeps (StillCached P B) (putMetadata json key httpCacheMetadata) := by
  refine keeps_call (keeps_bind (keeps_lookup key) fun found => ?_) (keeps_pure false)
    (keeps_pure false)
  split
  · split
    · exact keeps_pure false
    · exact keeps_bind (keeps_onDisk (still_updateMetadata hP)) fun _ => keeps_pure true
  · exact keeps_pure false

theorem keeps_makeRoom (key : String) (responseBodySize : UInt64) :
    Keeps (StillCached P B) (makeRoom key responseBodySize) := by
  refine keeps_call (keeps_bind (keeps_lookup key) fun found => ?_) (keeps_pure true)
    (keeps_pure false)
  split
  · split
    · exact keeps_pure false
    · exact keeps_bind (keeps_removeInternal key) fun _ => keeps_makeSpace responseBodySize
  · exact keeps_makeSpace responseBodySize

theorem keeps_storeMetadata {httpCacheMetadata : HttpCacheMetadata} (cacheFile : String)
    (hP : ∀ nowAtEpoch, P httpCacheMetadata.key (httpCacheMetadata.toRow json nowAtEpoch)) :
    Keeps (StillCached P B) (storeMetadata json httpCacheMetadata cacheFile) := by
  have hremove : Keeps (StillCached P B) (do
      let _ ← onDisk (FileUtil.removeFileIfPresent cacheFile)
      return false) :=
    keeps_bind (keeps_onDisk (still_removeFileIfPresent cacheFile)) fun _ => keeps_pure false
  exact keeps_call (keeps_bind (keeps_onDisk (still_updateMetadata hP)) fun _ => keeps_pure true)
    hremove hremove

theorem keeps_put {httpCacheMetadata : HttpCacheMetadata} (key path : String)
    (hP : ∀ nowAtEpoch, P httpCacheMetadata.key (httpCacheMetadata.toRow json nowAtEpoch)) :
    Keeps (StillCached P B) (put json key httpCacheMetadata path) := by
  unfold put
  refine keeps_bind (keeps_makeRoom key _) fun room => ?_
  split
  · exact keeps_pure false
  refine keeps_bind (keeps_newHttpCacheInfo key _) fun info => keeps_bind keeps_getState fun c => ?_
  refine keeps_bind (keeps_onDisk (still_moveFile path _)) fun moved => ?_
  split
  · exact keeps_pure false
  refine keeps_bind (keeps_storeMetadata _ hP) fun stored => ?_
  split
  · exact keeps_pure false
  exact keeps_bind (keeps_update key info) fun _ => keeps_pure true

theorem keeps_remove (key : String) : Keeps (StillCached P B) (remove key) :=
  keeps_call (keeps_removeInternal key) (keeps_pure false) (keeps_pure false)

theorem keeps_purge (mayDeleteIfBusy : Bool) : Keeps (StillCached P B) (purge mayDeleteIfBusy) := by
  refine keeps_call (keeps_bind (keeps_lru fun dir =>
    (changesFor_still dir).keeps_clear mayDeleteIfBusy) fun ret => ?_) (keeps_pure true)
    (keeps_pure false)
  split
  · exact keeps_bind keeps_deleteCacheFile fun _ => keeps_pure ret
  · exact keeps_pure ret

/-- What `getMetadata` answers was read from a row. -/
theorem wp_getMetadata_allRows (h : AllRows P s.disk) (key : String) :
    wp (HttpFileCache.getMetadata json key)
      (fun ret _ => ∀ m, ret = some m → ∃ row, P key row ∧ row.getMetadata json key = .ok m)
      (fun _ _ => True) s := by
  -- where it throws nothing is answered
  have hnothing : ∀ (e : CacheException) (t : HttpFileCache),
      wp (catchSql (return none) (return none) e)
        (fun ret _ => ∀ m, ret = some m → ∃ row, P key row ∧ row.getMetadata json key = .ok m)
        (fun _ _ => True) t := by
    intro e t
    unfold catchSql
    split
    · rw [wp_bind]
      exact wp_mono (wp_trivial _ t) (fun _ _ _ => nofun) fun _ _ he => he
    · exact nofun
    · exact trivial
  unfold HttpFileCache.getMetadata
  rw [wp_tryCatch, wp_bind]
  refine wp_mono (wp_of_keeps (keeps_initializeCache (P := P) (B := fun _ => True)) s)
    (fun _ t ht => ?_) fun e t _ => hnothing e t
  rw [wp_bind]
  refine wp_mono (wp_of_keeps (keeps_lookup (P := P) (B := fun _ => True) key) t)
    (fun found u hu => ?_) fun e u _ => hnothing e u
  -- the initialization and the lookup write no row
  have hrows : AllRows P u.disk := hu.1 (ht.1 h)
  cases found with
  | none => exact nofun
  | some info =>
    dsimp only
    split
    · exact nofun
    · unfold readMetadata
      rw [wp_bind, wp_onDisk]
      refine wp_mono (wp_getMetadata u.disk key) (fun metadata d hd => ?_) fun e _ _ => hnothing e _
      -- what is answered was read from the row of the key
      cases metadata with
      | none => exact nofun
      | some m =>
        obtain ⟨row, hrow, hread⟩ := hd.2.2 m rfl
        dsimp only
        rw [wp_bind]
        refine wp_mono (wp_trivial _ _) (fun _ _ _ => ?_) fun e _ _ => hnothing e _
        rw [wp_pure]
        rintro _ ⟨rfl⟩
        exact ⟨row, hrows key row hrow, hread⟩

/-! ## A cache with its readers -/

/-- `P` allows the row that a call writes, and `B` the file that others write. -/
def WritesOnly (P : String → Row → Prop) (B : String → Prop) (json : PocoJson) :
    CacheReaders.Call → Prop
  | .putMetadata _ httpCacheMetadata | .put _ httpCacheMetadata _ =>
    ∀ nowAtEpoch, P httpCacheMetadata.key (httpCacheMetadata.toRow json nowAtEpoch)
  | .createFile _ content => B content
  | _ => True

/-- What is on the disk is as `P` and `B` allow. -/
def AllWritten (P : String → Row → Prop) (B : String → Prop) (disk : Disk) : Prop :=
  AllRows P disk ∧ AllFiles B disk

/-- The property stays with all that is stored. -/
theorem Still.allWritten (h : Still P B disk disk') (hall : AllWritten P B disk) :
    AllWritten P B disk' := ⟨h.1 hall.1, h.2 hall.2⟩

/-- One step writes only what may be written. -/
theorem step_allWritten (hP : IgnoresAccess P) {c c' : CacheReaders.System}
    {action : CacheReaders.Action} (h : AllWritten P B c.cache.disk)
    (hwrites : WritesOnly P B json action.call)
    (hstep : CacheReaders.step json c action = some c') : AllWritten P B c'.cache.disk := by
  have hstart : AllWritten P B (CacheReaders.start c.cache action).disk := h
  unfold CacheReaders.step at hstep
  obtain ⟨call, nowAtEpoch, faults⟩ := action
  -- only three operations write: `putMetadata`, `put` and the file of a body
  cases call with
  | getMetadata key =>
    cases hstep
    exact Still.allWritten (keeps_getMetadata hP key _) hstart
  | getData key =>
    cases hstep
    exact Still.allWritten (keeps_getData key _) hstart
  | get key =>
    cases hstep
    exact Still.allWritten (keeps_get hP key _) hstart
  | close reader =>
    dsimp only at hstep
    split at hstep
    · cases hstep
      exact Still.allWritten (keeps_releaseData reader.key _) hstart
    · cases hstep
  | putMetadata key httpCacheMetadata =>
    cases hstep
    exact Still.allWritten (keeps_putMetadata key hwrites _) hstart
  | put key httpCacheMetadata path =>
    cases hstep
    exact Still.allWritten (keeps_put key path hwrites _) hstart
  | remove key =>
    cases hstep
    exact Still.allWritten (keeps_remove key _) hstart
  | purge mayDeleteIfBusy =>
    cases hstep
    exact Still.allWritten (keeps_purge mayDeleteIfBusy _) hstart
  | createFile path content =>
    cases hstep
    -- the new file, or one that was there
    refine ⟨hstart.1, fun path' content' hfile => ?_⟩
    have hfile : (c.cache.disk.files.set path content).find? path' = some content' := hfile
    rw [SortedMap.find?_set_eq, Function.update_apply] at hfile
    split at hfile
    · cases hfile
      exact hwrites
    · exact hstart.2 path' content' hfile

theorem run_allWritten (hP : IgnoresAccess P) {c c' : CacheReaders.System}
    {asked : List CacheReaders.Action} (h : AllWritten P B c.cache.disk)
    (hwrites : ∀ action ∈ asked, WritesOnly P B json action.call)
    (hrun : Runs.run (CacheReaders.step json) c asked = some c') : AllWritten P B c'.cache.disk :=
  Runs.run_invariant (C := fun _ action => WritesOnly P B json action.call)
    (fun _ _ _ hall hmeets hstep => step_allWritten hP hall hmeets hstep) h hrun
      (Runs.everyStep_of_forall hwrites _)

end EasyHttp.WrittenData
