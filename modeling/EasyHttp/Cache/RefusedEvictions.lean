import EasyHttp.Cache.Reopening
import EasyHttp.Library.ExecScript

/-!
# An initialization that can delete nothing

`makeSpace` does not read what the removals answer. When every deletion of a row fails, the rows
are handed over all the same, and all of them stay.

* `may_remove`: the removal of an entry is refused;
* `may_onEnumerate`: a row is handed over, and no row has gone;
* `may_initializeCache`: so is the whole table.
-/

namespace EasyHttp

open Exec

/-- The database answers the calls to come as `database` says, and no call for a file fails. -/
def Disk.withDatabaseFaults (disk : Disk) (database : List Fault) : Disk :=
  { disk with faults := { database := database } }

namespace HttpFileCache

open LruCacheByDataSizeStrategy LruOperations LruCapacity

variable {cacheRootDir key updatedKey : String} {maxSize size requestSize : UInt64} {p : Stores}
  {s : HttpFileCache} {disk : Disk} {info : HttpCacheInfo}

/-- The stores with other answers of the database to come. -/
def storesUnder (p : Stores) (database : List Fault) : Stores :=
  (p.1, p.2.withDatabaseFaults database)

/-- The cache with other answers of the database to come. -/
def cacheUnder (s : HttpFileCache) (database : List Fault) : HttpFileCache :=
  { s with disk := s.disk.withDatabaseFaults database }

/-! ## The list -/

/-- A plain failure of the deletion refuses the removal, and nothing is changed. -/
theorem may_onRemove (cacheRootDir key : String) (disk : Disk) :
    may Disk.withDatabaseFaults (onRemove cacheRootDir key) (fun ret d => ret = false ∧ d = disk)
      disk := may_of_exec_cons .fails (fun _ => rfl) ⟨rfl, rfl⟩

/-- The database may refuse a removal, and then nothing changes. -/
theorem may_remove (hidle : IsIdle p.1 key) :
    may storesUnder (HttpLruCacheStrategy.remove (listener cacheRootDir) key)
      (fun _ p' => p' = p) p := by
  have hbase : may storesUnder (LruCacheByDataSizeStrategy.remove (listener cacheRootDir) key)
      (fun _ p' => p' = p) p := by
    unfold LruCacheByDataSizeStrategy.remove
    refine may_getState (fun _ => rfl) ?_
    cases p.1.find key with
    | none => exact may_pure rfl
    | some found =>
      refine may_bind (may_zoom Disk.withDatabaseFaults (fun _ => rfl)
        (fun _ _ _ => rfl) (may_mono (may_onRemove cacheRootDir key p.2) fun ret d hd => ?_))
      obtain ⟨rfl, rfl⟩ := hd
      exact may_pure rfl
  obtain ⟨answers, a, t, hp, hrun⟩ := hbase
  refine ⟨answers, a, t, hp, fun later => ?_⟩
  rw [← hrun later]
  exact exec_remove_idle hidle

/-- Whatever is chosen for removal stays. -/
theorem may_makeSpaceFor (hwf : p.1.Wf) (hidle : NobodyReads p.1) :
    may storesUnder
      (makeSpaceFor (HttpLruCacheStrategy.virtuals (listener cacheRootDir)) requestSize updatedKey)
      (fun _ p' => p' = p) p := by
  unfold makeSpaceFor
  refine may_getState (fun _ => rfl) ?_
  dsimp only
  split
  · exact may_pure rfl
  split
  · exact may_pure rfl
  split
  · refine may_bind (may_mono (may_forEach (I := fun p' => p' = p) _ (fun k _ p' hp' => ?_) rfl)
      fun _ _ hp' => may_pure hp')
    unfold removeKey
    split
    · subst hp'
      refine may_bind (may_mono (may_remove (isIdle_of_nobodyReads hwf hidle)) fun _ _ h => ?_)
      exact may_pure h
    · exact may_pure hp'
  · exact may_pure rfl

/-- A list nobody reads from, within the capacity or beyond it, over a disk that is as it was. -/
structure Unread (disk : Disk) (maxSize : UInt64) (p : Stores) : Prop where
  wf : p.1.Wf
  idle : NobodyReads p.1
  maxSize_eq : p.1.maxSize = maxSize
  disk_eq : p.2 = disk

/-- A new entry is not read. -/
theorem Unread.push (h : Unread disk maxSize p) (hkey : info.key = key)
    (hinfo : info.dataRefCount = 0 ∧ info.reservedRemove = false) :
    Unread disk maxSize (p.1.push key info, p.2) := by
  refine ⟨h.wf.wf_push hkey, fun i hi => ?_, maxSize_push.trans h.maxSize_eq, h.disk_eq⟩
  have hi : i ∈ (p.1.push key info).lruList.values := hi
  rw [h.wf.values_push] at hi
  rcases List.mem_cons.mp hi with rfl | hold
  · exact hinfo
  · exact h.idle i (List.mem_of_mem_filter hold)

/-- A new entry is pushed whether there is room for it or not, or it is not. -/
theorem may_add (h : Unread disk maxSize p) (hkey : info.key = key)
    (hinfo : info.dataRefCount = 0 ∧ info.reservedRemove = false) :
    may storesUnder (HttpLruCacheStrategy.add (listener cacheRootDir) key info)
      (fun _ p' => Unread disk maxSize p') p := by
  unfold HttpLruCacheStrategy.add LruCacheByDataSizeStrategy.add
  refine may_bind (may_zoom Disk.withDatabaseFaults (fun _ => rfl) (fun _ _ _ => rfl)
    (may_pure ?_))
  show may storesUnder (addOrUpdate _ key info) _ p
  unfold addOrUpdate
  refine may_bind (may_mono (Q := fun _ p' => p' = p) ?_ fun ret p' hp' => ?_)
  · -- the search for room removes nothing
    unfold spaceFor
    refine may_getState (fun _ => rfl) ?_
    split
    · split
      · exact may_makeSpaceFor h.wf h.idle
      · exact may_pure rfl
    · exact may_makeSpaceFor h.wf h.idle
  · subst hp'
    split
    · exact may_bind (may_modifyState (fun _ => rfl) (may_pure (h.push hkey hinfo)))
    · exact may_pure h

/-! ## The rows -/

/-- A call of the list may go as its parts may. -/
theorem may_lru {x : LruListener CacheException Disk HttpCacheInfo →
      LruExec CacheException Disk HttpCacheInfo Bool} {Q : Bool → HttpFileCache → Prop}
    (h : may storesUnder (x (listener s.cacheRootDir)) (fun a p => Q a (s.withStores p))
      s.stores) : may cacheUnder (lru x) Q s :=
  may_getState (fun _ => rfl) (may_zoom storesUnder (fun _ => rfl) (fun _ _ _ => rfl) h)

/-- A row may be loaded without any eviction. -/
theorem may_onEnumerate (h : Unread disk maxSize s.stores) :
    may cacheUnder (onEnumerate key size) (fun _ t => Unread disk maxSize t.stores) s := by
  unfold onEnumerate
  refine may_bind (may_lru (may_mono (may_makeSpaceFor h.wf h.idle) fun ret p hp => ?_))
  subst hp
  split
  · unfold newHttpCacheInfo
    refine may_bind (may_getState (fun _ => rfl) ?_)
    refine may_bind (may_modifyState (fun _ => rfl) (may_pure ?_))
    refine may_bind (may_lru (may_mono (may_add h rfl ⟨rfl, rfl⟩) fun _ p hp => ?_))
    exact may_pure hp
  · exact may_pure h

/-- The query and the reading of each row succeed. -/
theorem may_onDisk {α : Type} {x : DiskExec α} {Q : α → HttpFileCache → Prop}
    (h : may Disk.withDatabaseFaults x (fun a d => Q a { s with disk := d }) s.disk) :
    may cacheUnder (onDisk x) Q s :=
  may_zoom Disk.withDatabaseFaults (fun _ => rfl) (fun _ _ _ => rfl) h

/-- A call of the database may succeed. -/
theorem may_databaseCall (disk : Disk) :
    may Disk.withDatabaseFaults Disk.databaseCall (fun _ d => d = disk) disk :=
  may_of_exec_cons .none (fun _ => rfl) rfl

/-- So all rows may be loaded without any eviction. -/
theorem may_enumerate (h : Unread disk maxSize s.stores) :
    may cacheUnder enumerate (fun _ t => Unread disk maxSize t.stores) s := by
  unfold enumerate HttpCacheDatabase.queryAll
  refine may_bind (may_onDisk (may_bind (may_mono (may_databaseCall s.disk) fun _ d hd => ?_)))
  subst hd
  refine may_getState (fun _ => rfl) (may_pure ?_)
  refine may_forEach _ (fun param _ t ht => ?_) h
  refine may_bind (may_onDisk (may_mono (may_databaseCall t.disk) fun _ d hd => ?_))
  subst hd
  exact may_bind (may_mono (may_onEnumerate ht) fun _ u hu => may_pure hu)

/-- The cache is initialized, over all the rows there were. -/
theorem may_initializeCache (hdir : cacheRootDir ≠ "") (disk : Disk) (maxSize : UInt64) :
    may cacheUnder initializeCache
      (fun _ t => t.cacheInitialized = true ∧ Unread disk maxSize t.stores)
      (construct cacheRootDir maxSize disk) := by
  unfold initializeCache FileUtil.createDirsIfAbsent
  refine may_getState (fun _ => rfl) (may_getState (fun _ => rfl) (may_bind (may_onDisk ?_)))
  have hcreated : ∀ database, exec (Exec.tryCatch (do
      if cacheRootDir = "" then
        return false
      Disk.fileCall cacheRootDir
      return true) (catchPoco (return false))) (disk.withDatabaseFaults database) =
        (.ok true, disk.withDatabaseFaults database) := by
    intro database
    rw [if_neg hdir]
    rfl
  have hempty : Unread disk maxSize (construct cacheRootDir maxSize disk).stores :=
    ⟨wf_construct maxSize, nofun, rfl, rfl⟩
  refine may_of_exec hcreated (may_bind (may_mono (may_enumerate hempty) fun _ t ht => ?_))
  exact may_modifyState (fun _ => rfl) ⟨rfl, ht⟩

end HttpFileCache

end EasyHttp
