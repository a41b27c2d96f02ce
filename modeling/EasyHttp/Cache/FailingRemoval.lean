import EasyHttp.Cache.HttpFileCacheSpecs

/-!
# Removals whose parts may fail

When file operations fail too, a removal may take a row and leave its entry and its file.

* `Loses keep`: entries that nobody reads, rows and files may be gone, but nothing of the keys of
  `keep`;
* `wp_remove_loses`, `wp_makeSpaceFor_loses`: the operations of the list, whatever fails;
* `wp_addOrUpdate_loses`: an entry pushed, and when it is.
-/

namespace EasyHttp.HttpFileCache

open Exec LruCacheByDataSizeStrategy LruOperations LruCapacity

/-! ## One removal -/

/-- Only the row and the file of one key may be gone. -/
structure RowAndFileOnly (cacheRootDir key : String) (disk disk' : Disk) : Prop where
  later : Disk.Later disk disk'
  row_eq : ∀ k ≠ key, disk'.row k = disk.row k
  file_eq : ∀ p ≠ makeCachedFilename cacheRootDir key, disk'.file p = disk.file p
  file_some : ∀ p c, disk'.file p = some c → disk.file p = some c

theorem rowAndFileOnly_of_same {cacheRootDir key : String} {disk disk' : Disk}
    (h : Disk.Same disk disk') : RowAndFileOnly cacheRootDir key disk disk' := by
  refine ⟨h.1, fun _ _ => congrFun h.row _, fun _ _ => congrFun h.file _, fun p c hc => ?_⟩
  rw [← h.file]
  exact hc

/-- An exception that tells of a corrupted database has found one. -/
def TellsCorrupt (disk : Disk) (e : CacheException) : Prop :=
  (∃ message, e = .sql (.databaseCorrupt message)) → Fault.corrupt ∈ disk.faults.database

/-- What is told later was known before. -/
theorem TellsCorrupt.of_later {disk disk' : Disk} {e : CacheException}
    (hlater : Disk.Later disk disk') (h : TellsCorrupt disk' e) : TellsCorrupt disk e :=
  fun hcorrupt => hlater.mem_database (h hcorrupt)

/-- A failing database tells whether it is corrupt. -/
theorem tellsCorrupt_of_databaseFails {disk : Disk} {e : CacheException}
    (h : Disk.DatabaseFails disk e) : TellsCorrupt disk e := by
  rintro ⟨message, rfl⟩
  rcases h with ⟨-, hmem⟩ | ⟨⟨message', heq⟩, -⟩
  · exact hmem
  · cases heq

/-- The callback of a removal touches the row and the file of its key only, whatever fails. -/
theorem wp_onRemove_only (cacheRootDir key : String) (disk : Disk) :
    wp (onRemove cacheRootDir key) (fun _ d => RowAndFileOnly cacheRootDir key disk d)
      (fun e d => RowAndFileOnly cacheRootDir key disk d ∧ TellsCorrupt disk e) disk := by
  unfold onRemove
  rw [wp_bind, wp_tryCatch]
  refine wp_mono (wp_deleteMetadata disk key) (fun deleted d hd => ?_) fun e d hd => ?_
  -- the row is gone; the file may stay if its removal fails
  · obtain ⟨hlater, hfiles, -, hrow, -⟩ := hd
    have hfile : d.file = disk.file := congrArg SortedMap.find? hfiles
    have hdeleted : RowAndFileOnly cacheRootDir key disk d := by
      refine ⟨hlater, fun k hk => ?_, fun _ _ => congrFun hfile _, fun p c hc => ?_⟩
      · rw [hrow, Function.update_of_ne hk]
      · rw [← hfile]
        exact hc
    cases deleted with
    | false => exact hdeleted
    | true =>
      refine wp_mono (wp_removeFileIfPresent d _) (fun _ d' hd' => ?_) fun _ _ he => he.elim
      obtain ⟨hlater', hrows, -, hfile'⟩ := hd'
      have hgone : d'.file = Function.update d.file (makeCachedFilename cacheRootDir key) none ∨
          d'.file = d.file := hfile'.imp_right And.right
      refine ⟨trans_of _ hlater hlater', fun k hk => ?_, fun p hp => ?_, fun p c hc => ?_⟩
      · have hrow' : d'.row = d.row := congrArg SortedMap.find? hrows
        rw [hrow']
        exact hdeleted.row_eq k hk
      · refine Eq.trans ?_ (hdeleted.file_eq p hp)
        rcases hgone with h | h
        · rw [h, Function.update_of_ne hp]
        · rw [h]
      · refine hdeleted.file_some p c ?_
        rcases hgone with h | h
        · rw [h] at hc
          by_cases hp : p = makeCachedFilename cacheRootDir key
          · rw [hp, Function.update_self] at hc
            cases hc
          · rwa [Function.update_of_ne hp] at hc
        · rwa [h] at hc
  -- the database has thrown before anything was changed
  · obtain ⟨hsame, hfails, -⟩ := hd
    have honly : RowAndFileOnly cacheRootDir key disk d := rowAndFileOnly_of_same hsame
    rcases hfails with ⟨⟨message, rfl⟩, hmem⟩ | ⟨⟨message, rfl⟩, -⟩
    · exact ⟨honly, fun _ => hmem⟩
    · exact honly

/-! ## The list -/

/-- Entries that nobody reads, rows and files may be gone, but nothing of the keys of `keep`. -/
structure Loses (cacheRootDir : String) (keep : String → Prop) (s t : Stores) : Prop where
  wf : t.1.Wf
  exact_total : Exact s.1 → Exact t.1 ∧ t.1.totalSize.toNat ≤ s.1.totalSize.toNat
  maxSize_eq : t.1.maxSize = s.1.maxSize
  later : Disk.Later s.2 t.2
  each : ∀ k, t.1.entry k = s.1.entry k ∨
    t.1.entry k = none ∧ ∃ info, s.1.entry k = some info ∧ info.dataRefCount = 0
  kept : ∀ k, keep k → stored cacheRootDir t k = stored cacheRootDir s k
  file_some : ∀ p c, t.2.file p = some c → s.2.file p = some c

variable {cacheRootDir updatedKey : String} {keep keep' : String → Prop} {s t u : Stores}
  {key k : String} {info : HttpCacheInfo}

/-- Nothing needs to be lost. -/
theorem loses_refl (hwf : s.1.Wf) : Loses cacheRootDir keep s s where
  wf := hwf
  exact_total := fun h => ⟨h, Nat.le_refl _⟩
  maxSize_eq := rfl
  later := refl_of _ s.2
  each := fun _ => .inl rfl
  kept := fun _ _ => rfl
  file_some := fun _ _ h => h

/-- An entry that is left is as it was. -/
theorem Loses.entry_of_entry (h : Loses cacheRootDir keep s t)
    (hentry : t.1.entry k = some info) : s.1.entry k = some info := by
  rcases h.each k with hsame | ⟨hnone, -⟩
  · rw [← hsame]
    exact hentry
  · rw [hnone] at hentry
    cases hentry

theorem Loses.trans (hst : Loses cacheRootDir keep s t) (htu : Loses cacheRootDir keep t u) :
    Loses cacheRootDir keep s u where
  wf := htu.wf
  exact_total := by
    intro h
    obtain ⟨ht, hle⟩ := hst.exact_total h
    obtain ⟨hu, hle'⟩ := htu.exact_total ht
    exact ⟨hu, Nat.le_trans hle' hle⟩
  maxSize_eq := htu.maxSize_eq.trans hst.maxSize_eq
  later := trans_of _ hst.later htu.later
  each := by
    intro k
    rcases htu.each k with hsame | ⟨hnone, info, hentry, hzero⟩
    · rw [hsame]
      exact hst.each k
    · exact .inr ⟨hnone, info, hst.entry_of_entry hentry, hzero⟩
  kept := fun k hk => (htu.kept k hk).trans (hst.kept k hk)
  file_some := fun p c hc => hst.file_some p c (htu.file_some p c hc)

theorem Loses.mono (h : Loses cacheRootDir keep s t) (hkeep : ∀ k, keep' k → keep k) :
    Loses cacheRootDir keep' s t :=
  ⟨h.wf, h.exact_total, h.maxSize_eq, h.later, h.each, fun k hk => h.kept k (hkeep k hk),
    h.file_some⟩

theorem Loses.isIdle (h : Loses cacheRootDir keep s t) (hidle : IsIdle s.1 key) :
    IsIdle t.1 key := fun info hentry => hidle info (h.entry_of_entry hentry)

/-- The entries that are being read, and so their sizes, are as before. -/
theorem heldSize_loses (hwf : s.1.Wf) (h : Loses cacheRootDir keep s t) :
    heldSize (fun info => info.dataRefCount = 0) t.1 =
      heldSize (fun info => info.dataRefCount = 0) s.1 := by
  refine heldSize_congr hwf h.wf fun k info hbusy => ⟨h.entry_of_entry, fun hentry => ?_⟩
  rcases h.each k with hsame | ⟨-, old, hold, hzero⟩
  · rw [hsame]
    exact hentry
  · rw [hentry] at hold
    cases hold
    exact absurd hzero hbusy

/-- The disk after a removal, with the list as it was or without the entry. -/
theorem loses_of_only {lru : LruCacheByDataSizeStrategy HttpCacheInfo} {d : Disk} (hwf : s.1.Wf)
    (hidle : IsIdle s.1 key) (honly : RowAndFileOnly cacheRootDir key s.2 d)
    (hlist : lru = s.1 ∨ lru = s.1.drop key) :
    Loses cacheRootDir (fun k => k ≠ key) s (lru, d) := by
  have hstored : ∀ k, k ≠ key → lru.entry k = s.1.entry k →
      stored cacheRootDir (lru, d) k = stored cacheRootDir s k := by
    intro k hk hentry
    unfold stored
    have hname : makeCachedFilename cacheRootDir k ≠ makeCachedFilename cacheRootDir key :=
      fun h => hk (makeCachedFilename_injective _ h)
    rw [hentry, honly.row_eq k hk, honly.file_eq _ hname]
  rcases hlist with rfl | rfl
  · exact ⟨hwf, fun h => ⟨h, Nat.le_refl _⟩, rfl, honly.later, fun _ => .inl rfl,
      fun k hk => hstored k hk rfl, honly.file_some⟩
  · have hentry : ∀ k, k ≠ key → (s.1.drop key).entry k = s.1.entry k := by
      intro k hk
      rw [hwf.entry_drop, Function.update_of_ne hk]
    refine ⟨hwf.wf_drop, fun h => ⟨h.drop, ?_⟩, maxSize_drop key, honly.later, fun k => ?_,
      fun k hk => hstored k hk (hentry k hk), honly.file_some⟩
    · have htotal := h.toNat_drop key
      dsimp only
      omega
    · by_cases hk : k = key
      · have hnone : (s.1.drop key).entry k = none := by
          rw [hwf.entry_drop, hk, Function.update_self]
        cases hlisted : s.1.entry k with
        | none => exact .inl hnone
        | some info => exact .inr ⟨hnone, info, rfl, hidle info (hk ▸ hlisted)⟩
      · exact .inl (hentry k hk)

/-- A removal that fails has lost no other entry. -/
theorem wp_remove_loses (hwf : s.1.Wf) (hidle : IsIdle s.1 key) :
    wp (HttpLruCacheStrategy.remove (listener cacheRootDir) key)
      (fun _ t => Loses cacheRootDir (fun k => k ≠ key) s t)
      (fun e t => Loses cacheRootDir (fun k => k ≠ key) s t ∧ TellsCorrupt s.2 e) s := by
  unfold wp
  rw [exec_remove_idle hidle]
  show wp (LruCacheByDataSizeStrategy.remove (listener cacheRootDir) key) _ _ s
  cases hfind : s.1.find key with
  | none =>
    unfold LruCacheByDataSizeStrategy.remove
    rw [wp_bind, wp_getState, hfind]
    exact loses_refl hwf
  | some found =>
    obtain ⟨it, info⟩ := found
    rw [wp_remove hfind]
    refine wp_mono (wp_onRemove_only cacheRootDir key s.2) (fun ret d hd => ?_) fun e d hd => ?_
    · cases ret with
      | true => exact loses_of_only hwf hidle hd (.inr rfl)
      | false => exact loses_of_only hwf hidle hd (.inl rfl)
    · exact ⟨loses_of_only hwf hidle hd.1 (.inl rfl), hd.2⟩

/-- The keys that `makeSpace` spares: those that are not listed, and the one to be updated. -/
def Spared (lru : LruCacheByDataSizeStrategy HttpCacheInfo) (updatedKey : String) (k : String) :
    Prop := lru.entry k = none ∨ k = updatedKey ∧ updatedKey ≠ ""

/-- To make space loses only what it may remove. -/
theorem wp_makeSpaceFor_loses (hwf : s.1.Wf) (requestSize : UInt64) :
    wp (makeSpaceFor (HttpLruCacheStrategy.virtuals (listener cacheRootDir)) requestSize updatedKey)
      (fun _ t => Loses cacheRootDir (Spared s.1 updatedKey) s t)
      (fun e t => Loses cacheRootDir (Spared s.1 updatedKey) s t ∧ TellsCorrupt s.2 e) s := by
  refine wp_makeSpaceFor_each (I := fun t => Loses cacheRootDir (Spared s.1 updatedKey) s t) hwf
    requestSize (fun key info t hentry hzero hask hst => ?_) (loses_refl hwf)
  have hidle : IsIdle s.1 key := by
    intro i hi
    rw [hentry] at hi
    cases hi
    exact hzero
  -- the key is neither unlisted nor the one to be updated
  have hone : ∀ u, Loses cacheRootDir (fun k => k ≠ key) t u →
      Loses cacheRootDir (Spared s.1 updatedKey) s u := by
    intro u htu
    refine hst.trans (htu.mono fun k hk heq => ?_)
    rcases hk with hnone | ⟨hupdated, hne⟩
    · rw [heq, hentry] at hnone
      cases hnone
    · rcases hask with hempty | hother
      · exact hne hempty
      · exact hother (hupdated.symm.trans heq)
  exact wp_mono (wp_remove_loses hst.wf (hst.isIdle hidle)) (fun _ u hu => hone u hu)
    fun e u hu => ⟨hone u hu.1, hu.2.of_later hst.later⟩

/-! ## The whole cache -/

/-- The same directory and capacity, and no files but those that were there. -/
structure Within (s t : HttpFileCache) : Prop where
  cacheRootDir_eq : t.cacheRootDir = s.cacheRootDir
  maxSize_eq : t.lruCacheStrategy.maxSize = s.lruCacheStrategy.maxSize
  later : Disk.Later s.disk t.disk
  file_some : ∀ p c, t.disk.file p = some c → s.disk.file p = some c

instance : Std.Refl Within := ⟨fun s => ⟨rfl, rfl, refl_of _ s.disk, fun _ _ h => h⟩⟩

instance : IsTrans HttpFileCache Within :=
  ⟨fun _ _ _ hst htu => ⟨htu.cacheRootDir_eq.trans hst.cacheRootDir_eq,
    htu.maxSize_eq.trans hst.maxSize_eq, trans_of _ hst.later htu.later,
    fun p c hc => hst.file_some p c (htu.file_some p c hc)⟩⟩

/-- `Loses` for a whole cache. -/
structure Lost (keep : String → Prop) (s t : HttpFileCache) : Prop where
  loses : Loses s.cacheRootDir keep s.stores t.stores
  cacheRootDir_eq : t.cacheRootDir = s.cacheRootDir
  initialized : t.cacheInitialized = s.cacheInitialized

section
variable {s t u : HttpFileCache}

theorem lost_of_loses {p : Stores} (h : Loses s.cacheRootDir keep s.stores p) :
    Lost keep s (s.withStores p) := ⟨h, rfl, rfl⟩

theorem lost_refl (hwf : s.lruCacheStrategy.Wf) : Lost keep s s := ⟨loses_refl hwf, rfl, rfl⟩

/-- What is lost leaves the rest in its place. -/
theorem Lost.within (h : Lost keep s t) : Within s t :=
  ⟨h.cacheRootDir_eq, h.loses.maxSize_eq, h.loses.later, h.loses.file_some⟩

theorem Lost.started (h : Lost keep s t) (hs : s.Started) : t.Started := by
  unfold Started
  rw [h.initialized, h.cacheRootDir_eq]
  exact hs

/-- What is stored for a key that was kept. -/
theorem Lost.storedIn_eq (h : Lost keep s t) (hk : keep k) : storedIn t k = storedIn s k := by
  have hkept := h.loses.kept k hk
  unfold storedIn
  rw [h.cacheRootDir_eq]
  exact hkept

/-- What is thrown tells the truth about a corrupted database. -/
def ThrowsIn (s : HttpFileCache) (e : CacheException) (t : HttpFileCache) : Prop :=
  Within s t ∧ TellsCorrupt s.disk e

theorem ThrowsIn.of_within {e : CacheException} (hst : Within s t) (h : ThrowsIn t e u) :
    ThrowsIn s e u := ⟨trans_of _ hst h.1, h.2.of_later hst.later⟩

/-- So for the removal under the lock. -/
theorem wp_removeInternal_loses (hwf : s.lruCacheStrategy.Wf)
    (hidle : IsIdle s.lruCacheStrategy key) :
    wp (removeInternal key) (fun _ t => Lost (fun k => k ≠ key) s t) (ThrowsIn s) s := by
  unfold removeInternal
  rw [wp_lru]
  exact wp_mono (wp_remove_loses (s := s.stores) hwf hidle) (fun _ _ hp => lost_of_loses hp)
    fun _ _ hp => ⟨(lost_of_loses hp.1).within, hp.2⟩

/-- The room that the entries being read leave for another one. -/
def RoomBesideHeld (lru : LruCacheByDataSizeStrategy HttpCacheInfo) (size : UInt64) : Prop :=
  heldSize (fun info => info.dataRefCount = 0) lru + size.toNat ≤ lru.maxSize.toNat

/-- The room beside the entries that stay is the same. -/
theorem Lost.roomBesideHeld (h : Lost keep s t) (hwf : s.lruCacheStrategy.Wf) {size : UInt64} :
    RoomBesideHeld t.lruCacheStrategy size ↔ RoomBesideHeld s.lruCacheStrategy size := by
  have hheld : heldSize (fun info => info.dataRefCount = 0) t.lruCacheStrategy =
    heldSize (fun info => info.dataRefCount = 0) s.lruCacheStrategy := heldSize_loses hwf h.loses
  have hmax : t.lruCacheStrategy.maxSize = s.lruCacheStrategy.maxSize := h.loses.maxSize_eq
  unfold RoomBesideHeld
  rw [hheld, hmax]

/-- The sizes add up, with room in 64 bits for one more. -/
structure Adds64 (lru : LruCacheByDataSizeStrategy HttpCacheInfo) (size : ℕ) : Prop where
  exact_total : Exact lru
  fits : lru.totalSize.toNat + size < 2 ^ 64

theorem Lost.adds64 (h : Lost keep s t) {size : ℕ} (hs : Adds64 s.lruCacheStrategy size) :
    Adds64 t.lruCacheStrategy size := by
  obtain ⟨hexact, hle⟩ := h.loses.exact_total hs.exact_total
  have hle : t.lruCacheStrategy.totalSize.toNat ≤ s.lruCacheStrategy.totalSize.toNat := hle
  have hfits := hs.fits
  exact ⟨hexact, by omega⟩

/-- So for `makeSpace`; it succeeds exactly where there is room. -/
theorem wp_makeSpace_loses (hwf : s.lruCacheStrategy.Wf) (size : UInt64) :
    wp (lru (HttpLruCacheStrategy.makeSpace · size))
      (fun ret t => Lost (fun k => s.entry k = none) s t ∧ (Adds64 s.lruCacheStrategy size.toNat →
        (ret = true ↔ RoomBesideHeld s.lruCacheStrategy size)))
      (ThrowsIn s) s := by
  have hanswer : wp (lru (HttpLruCacheStrategy.makeSpace · size))
      (fun ret _ => Adds64 s.lruCacheStrategy size.toNat →
        (ret = true ↔ RoomBesideHeld s.lruCacheStrategy size)) (fun _ _ => True) s := by
    by_cases hadds : Adds64 s.lruCacheStrategy size.toNat
    · have hheld : wp (lru (HttpLruCacheStrategy.makeSpace · size))
          (fun ret _ => ret = true ↔ RoomBesideHeld s.lruCacheStrategy size) (fun _ _ => True) s :=
        wp_lru.mpr (wp_makeSpaceFor_answer (s := s.stores) (fun _ _ => rfl) hadds.exact_total
          hadds.fits)
      exact wp_mono hheld (fun _ _ h _ => h) fun _ _ _ => trivial
    · exact wp_mono (wp_trivial _ s) (fun _ _ _ h => absurd h hadds) fun _ _ _ => trivial
  have hloses : wp (lru (HttpLruCacheStrategy.makeSpace · size))
      (fun _ t => Lost (fun k => s.entry k = none) s t) (ThrowsIn s) s := by
    rw [wp_lru]
    refine wp_mono (wp_makeSpaceFor_loses (s := s.stores) hwf size) (fun _ p hp => ?_)
      fun _ _ hp => ⟨(lost_of_loses hp.1).within, hp.2⟩
    exact lost_of_loses (hp.mono fun _ hnone => .inl hnone)
  exact wp_mono (wp_and hloses hanswer) (fun _ _ h => h) fun _ _ h => h.1

/-- The entry is pushed once there is room, and there is if the entries being read leave it. -/
theorem wp_addOrUpdate_loses (hwf : s.lruCacheStrategy.Wf) :
    wp (lru fun listener => addOrUpdate (HttpLruCacheStrategy.virtuals listener) key info)
      (fun ret t => ∃ u, Lost (Spared s.lruCacheStrategy key) s u ∧
        (t = if ret then { u with lruCacheStrategy := u.lruCacheStrategy.push key info } else u) ∧
        (Adds64 s.lruCacheStrategy info.dataSize.toNat →
          RoomBesideHeld s.lruCacheStrategy info.dataSize → ret = true))
      (ThrowsIn s) s := by
  -- a new entry needs space for itself, an old one for the difference
  cases hentry : s.entry key with
  | none =>
    refine wp_addOrUpdate_new hentry ?_
    refine wp_mono (wp_makeSpace_loses hwf info.dataSize) (fun ret u hu => ?_) fun _ _ he => he
    have hlost : Lost (Spared s.lruCacheStrategy key) s u := by
      refine ⟨hu.1.loses.mono fun k hk => ?_, hu.1.cacheRootDir_eq, hu.1.initialized⟩
      rcases hk with hnone | ⟨hkey, -⟩
      · exact hnone
      · rw [hkey]
        exact hentry
    exact ⟨u, hlost, rfl, fun hadds hroom => (hu.2 hadds).mpr hroom⟩
  | some old =>
    obtain ⟨it, hfind⟩ := find_of_entry hentry
    rw [wp_lru]
    unfold addOrUpdate spaceFor
    rw [wp_bind, wp_bind, wp_getState]
    have hfind : s.stores.1.find key = some (it, old) := hfind
    rw [hfind]
    show wp (if old.dataSize < info.dataSize then _ else _) _ _ s.stores
    -- the entry grows
    by_cases hgrows : old.dataSize < info.dataSize
    · rw [if_pos hgrows]
      have hanswer : wp (makeSpaceFor (HttpLruCacheStrategy.virtuals (listener s.cacheRootDir))
          info.dataSize key) (fun ret _ => Adds64 s.lruCacheStrategy info.dataSize.toNat →
            RoomBesideHeld s.lruCacheStrategy info.dataSize → ret = true) (fun _ _ => True)
          s.stores := by
        by_cases hadds : Adds64 s.lruCacheStrategy info.dataSize.toNat
        · refine wp_mono (wp_makeSpaceFor_answer (s := s.stores) (fun _ _ => rfl)
            hadds.exact_total hadds.fits) (fun _ _ h _ hroom => h.mpr hroom) fun _ _ _ => trivial
        · exact wp_mono (wp_trivial _ _) (fun _ _ _ h => absurd h hadds) fun _ _ _ => trivial
      refine wp_mono (wp_and (wp_makeSpaceFor_loses (s := s.stores) hwf info.dataSize) hanswer)
        (fun ret p hp => ?_) fun _ _ hp => ⟨(lost_of_loses hp.1.1).within, hp.1.2⟩
      have hlost : Lost (Spared s.lruCacheStrategy key) s (s.withStores p) := lost_of_loses hp.1
      cases ret with
      | true => exact ⟨s.withStores p, hlost, rfl, hp.2⟩
      | false => exact ⟨s.withStores p, hlost, rfl, hp.2⟩
    · rw [if_neg hgrows]
      exact ⟨s, lost_refl hwf, rfl, fun _ _ => rfl⟩

end

end EasyHttp.HttpFileCache
