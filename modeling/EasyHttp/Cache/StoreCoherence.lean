import EasyHttp.Cache.CacheEnumeration
import EasyHttp.Cache.CacheReaders

/-!
# The list, the rows and the files under failures

Every call updates the three one after the other, and any call of the database or of the file
system on the way may fail.

* `Coherent`: every entry has its row, and every row its entry;
* `LeavesIntact`: an entry that a removal has left is as it was, in all three;
* `Removable`: an entry that nobody reads is removed by a removal that meets no failure;
* `Sound`: the condition on a step under which these hold;
* `coherent_run`: along every run of such steps from an initialized cache they do;
* `torn_removal`: a body file that cannot be deleted leaves an entry that has no row.
-/

namespace EasyHttp.StoreCoherence

open Exec HttpFileCache CacheReaders LruCacheByDataSizeStrategy LruOperations LruCapacity

/-! ## What is to hold -/

/-- The keys of the entries are those of the rows. -/
def Coherent (s : HttpFileCache) : Prop := ∀ key, (s.entry key).isSome = (s.disk.row key).isSome

/-- What a removal that fails does to the entry of a key: an entry that is being read is only
marked, and a stream that was closed is no reader any more. -/
def asBefore (call : Call) (key : String) (info : HttpCacheInfo) : HttpCacheInfo :=
  match call with
  | .close reader => if reader.key = key then info.releaseDataRef else info
  | .remove removed =>
    if removed = key ∧ info.dataRefCount ≠ 0 then { info with reservedRemove := true } else info
  | _ => info

/-- The calls that remove entries. -/
def removes : Call → Bool
  | .close _ | .remove _ | .purge _ | .put _ _ _ => true
  | _ => false

/-- An entry that is still there after a call that removes entries is as before, and so are its
row and its file. -/
def LeavesIntact (json : PocoJson) (s : System) (action : Action) : Prop :=
  ∀ s', step json s action = some s' → removes action.call = true →
    ∀ key info info', s.cache.entry key = some info → s'.cache.entry key = some info' →
      info'.serial = info.serial → storedIn s'.cache key =
        (some (asBefore action.call key info), (storedIn s.cache key).2)

/-- A removal that meets no failure removes an entry that nobody reads. -/
def Removable (s : System) : Prop :=
  ∀ key info, s.cache.entry key = some info → info.dataRefCount = 0 → ∀ nowAtEpoch,
    let (r, t) := exec (HttpFileCache.remove key) (start s.cache ⟨.remove key, nowAtEpoch, {}⟩)
    r.toOption = some true ∧ storedIn t key = (none, none, none)

/-! ## When it does -/

/-- Nothing is deleted for a corrupted database while the file system fails. -/
def ResetWorks (disk : Disk) : Prop := Fault.corrupt ∈ disk.faults.database → disk.FilesWork

/-- The condition on a `put`. The files are those that it may remove or replace: none, when the
key is new and there is room. -/
def SoundPut (s : HttpFileCache) (key : String) (httpCacheMetadata : HttpCacheMetadata)
    (path : String) : Prop :=
  httpCacheMetadata.key = key ∧ isBodyFile s.cacheRootDir path = false ∧
    Fault.corrupt ∉ s.disk.faults.database ∧
    s.lruCacheStrategy.totalSize.toNat + httpCacheMetadata.responseBodySize.toNat < 2 ^ 64 ∧
    (∀ info ∈ s.entry key, isWritable info = true → s.disk.faults.database.headD .none = .none) ∧
    (s.disk.FilesWork ∨ s.cacheInitialized = true ∧ s.entry key = none ∧
      s.lruCacheStrategy.totalSize.toNat + httpCacheMetadata.responseBodySize.toNat ≤
        s.lruCacheStrategy.maxSize.toNat)

/-- The condition on a call, over the cache with the failures that the call meets. -/
def SoundCall (s : HttpFileCache) : Call → Prop
  | .getMetadata _ | .getData _ | .get _ => ResetWorks s.disk
  | .putMetadata key httpCacheMetadata => httpCacheMetadata.key = key ∧ ResetWorks s.disk
  | .close _ | .remove _ | .purge _ => s.disk.FilesWork
  | .put key httpCacheMetadata path => SoundPut s key httpCacheMetadata path
  | .createFile path _ => isBodyFile s.cacheRootDir path = false

/-- The call of an action is sound where the action begins. -/
def Sound (s : System) (action : Action) : Prop := SoundCall (start s.cache action) action.call

/-! ## The invariant -/

/-- What holds of a cache between two calls. -/
structure Synced (s : HttpFileCache) : Prop extends Valid s where
  exact_total : Exact s.lruCacheStrategy
  coherent : Coherent s
  uninitialized : s.cacheInitialized = false → ∀ k, s.entry k = none
  cacheRootDir_ne : s.cacheRootDir ≠ ""

variable {json : PocoJson} {s t u : HttpFileCache} {may : String → HttpCacheInfo → Prop}
  {key k : String} {info : HttpCacheInfo} {α : Type}

theorem Synced.emptyUntilInitialized (h : Synced s) : s.EmptyUntilInitialized := by
  cases hinit : s.cacheInitialized with
  | true => exact .inl hinit
  | false =>
    refine .inr fun k => ⟨h.uninitialized hinit k, ?_⟩
    have hcoherent := h.coherent k
    rw [h.uninitialized hinit k, Option.isSome_none] at hcoherent
    exact Option.not_isSome_iff_eq_none.mp (by rw [← hcoherent]; exact Bool.false_ne_true)

/-- It holds when entries have left. -/
theorem Synced.trimmed (h : Synced s) (ht : Trimmed may s t) : Synced t where
  wf := ht.trims.wf
  serial_lt := by
    intro k info hentry
    rw [ht.nextSerial_eq]
    exact h.serial_lt k info (ht.trims.entry_of_entry hentry)
  exact_total := (ht.trims.exact_total h.exact_total).1
  coherent := by
    intro k
    rcases ht.trims.each k with hsame | ⟨hgone, -⟩
    · have hentry : t.entry k = s.entry k := congrArg Prod.fst hsame
      have hrow : t.disk.row k = s.disk.row k := congrArg (fun p => p.2.1) hsame
      rw [hentry, hrow]
      exact h.coherent k
    · have hentry : t.entry k = none := congrArg Prod.fst hgone
      have hrow : t.disk.row k = none := congrArg (fun p => p.2.1) hgone
      rw [hentry, hrow]
      rfl
  uninitialized := by
    intro hinit k
    have hnone : s.cacheInitialized = false := by
      rw [Bool.eq_false_iff]
      intro htrue
      rw [ht.initialized htrue] at hinit
      cases hinit
    exact ht.trims.gone (h.uninitialized hnone k)
  cacheRootDir_ne := ht.cacheRootDir_eq ▸ h.cacheRootDir_ne

/-- It does after a lookup. -/
theorem Synced.touched (h : Synced s) (ht : Touched s t) : Synced t := by
  have hentry := ht.entry_eq
  refine ⟨⟨ht.lruCacheStrategy_eq ▸ h.wf, ?_⟩, ht.lruCacheStrategy_eq ▸ h.exact_total, fun k => ?_,
    ?_, ht.cacheRootDir_eq ▸ h.cacheRootDir_ne⟩
  · rw [hentry, ht.nextSerial_eq]
    exact h.serial_lt
  · rw [hentry, (ht.rows k).1]
    exact h.coherent k
  · rw [hentry, ht.initialized]
    exact h.uninitialized

/-- It does when an entry is rewritten. -/
theorem Synced.rewritten (h : Synced s) {old : HttpCacheInfo} (hold : s.entry key = some old)
    (hserial : info.serial = old.serial) (ht : Rewritten key info s t) : Synced t := by
  have hsome : ∀ k, (t.entry k).isSome = (s.entry k).isSome := by
    intro k
    rw [ht.entry_eq]
    by_cases hk : k = key
    · rw [hk, Function.update_self, hold]
      rfl
    · rw [Function.update_of_ne hk]
  refine ⟨⟨ht.wf, fun k i hi => ?_⟩, ht.exact_total h.exact_total, fun k => ?_, fun hinit k => ?_,
    ht.cacheRootDir_eq ▸ h.cacheRootDir_ne⟩
  · rw [ht.nextSerial_eq]
    rw [ht.entry_eq] at hi
    by_cases hk : k = key
    · rw [hk, Function.update_self] at hi
      cases hi
      rw [hserial]
      exact h.serial_lt key old hold
    · rw [Function.update_of_ne hk] at hi
      exact h.serial_lt k i hi
  · rw [hsome, ht.disk_eq]
    exact h.coherent k
  · have hnone := h.uninitialized (ht.initialized ▸ hinit) k
    have hk := hsome k
    rw [hnone] at hk
    exact Option.not_isSome_iff_eq_none.mp (by rw [hk]; exact Bool.false_ne_true)

/-- After a reset nothing is stored. -/
theorem Synced.reset (h : Synced s) (ht : Reset s t) : Synced t := by
  have hentry : ∀ k, t.entry k = none := by
    intro k
    unfold HttpFileCache.entry
    rw [ht.lruCacheStrategy_eq]
    rfl
  have hrow : ∀ k, t.disk.row k = none := by
    intro k
    unfold Disk.row
    rw [ht.rows_eq]
    rfl
  refine ⟨⟨ht.lruCacheStrategy_eq ▸ wf_construct _, fun k i hi => ?_⟩,
    ht.lruCacheStrategy_eq ▸ (bounded_construct _).toExact, fun k => ?_, fun _ => hentry,
    ht.cacheRootDir_eq ▸ h.cacheRootDir_ne⟩
  · rw [hentry k] at hi
    cases hi
  · rw [hentry k, hrow k]
    rfl

/-! ## Calls that read -/

/-- A failure of the database, or headers that cannot be read. -/
def Fails (disk : Disk) (e : CacheException) : Prop :=
  Disk.DatabaseFails disk e ∨ ∃ e', e = .http e'

/-- A corrupt database was one before the call. -/
theorem Fails.corrupt {disk : Disk} {e : CacheException} (h : Fails disk e)
    (he : ∃ message, e = .sql (.databaseCorrupt message)) :
    Fault.corrupt ∈ disk.faults.database := by
  obtain ⟨message, rfl⟩ := he
  rcases h with (⟨-, hmem⟩ | ⟨⟨_, hne⟩, -⟩) | ⟨_, hne⟩
  · exact hmem
  · cases hne
  · cases hne

/-- So was whatever fails later in a call. -/
theorem Fails.later {disk disk' : Disk} {e : CacheException} (hlater : Disk.Later disk disk')
    (h : Fails disk' e) : Fails disk e :=
  h.imp_left fun hfails => hfails.imp (fun h => ⟨h.1, hlater.mem_database h.2⟩)
    fun h => ⟨h.1, hlater.mem_database h.2⟩

/-- What a call keeps is kept through its `catch` clauses, when a reset keeps it and works. -/
theorem wp_tryCatch_kept {P : HttpFileCache → Prop} {x corrupted failed : CacheExec α}
    (hworks : ResetWorks s.disk) (hlater : ∀ t, P t → Disk.Later s.disk t.disk)
    (hreset : ∀ t u, P t → Reset t u → P u)
    (hx : wp x (fun _ t => P t) (fun e t => P t ∧ Fails s.disk e) s)
    (hcorrupted : ∀ t, P t → wp corrupted (fun _ u => P u) (fun _ u => P u) t)
    (hfailed : ∀ t, P t → wp failed (fun _ u => P u) (fun _ u => P u) t) :
    wp (Exec.tryCatch x (catchSql corrupted failed)) (fun _ t => P t) (fun _ t => P t) s := by
  rw [wp_tryCatch]
  refine wp_mono hx (fun _ _ ht => ht) fun e t ht => ?_
  obtain ⟨hp, hfails⟩ := ht
  refine wp_catchSql (fun he => ⟨?_, fun u hu => hcorrupted u (hreset t u hp hu)⟩) (hfailed t hp)
    fun _ _ => hp
  exact (hlater t hp).filesWork (hworks (hfails.corrupt he))

/-- What the calls that read keep. -/
def Stays (s t : HttpFileCache) : Prop := Synced t ∧ Disk.Later s.disk t.disk

/-- Another object, or the same, for an entry that stays listed. -/
def SameEntry (info info' : HttpCacheInfo) : Prop :=
  info.serial = info'.serial ∧ (info.reservedRemove = true → info'.reservedRemove = true)

theorem SameEntry.trans {info info' info'' : HttpCacheInfo} (h : SameEntry info info')
    (h' : SameEntry info' info'') : SameEntry info info'' :=
  ⟨h.1.trans h'.1, fun hreserved => h'.2 (h.2 hreserved)⟩

theorem like_trans {row row' row'' : Row} (h : row.Like row') (h' : row'.Like row'') :
    row.Like row'' := by
  unfold Row.Like at h h' ⊢
  rw [h', h]

/-- An entry that is left is one that was there, with its file and with its row but for the time
of the last access, unless another row was written. -/
def Follows (written : String → HttpCacheInfo → Row → Prop) (s t : HttpFileCache) : Prop :=
  ∀ k info', t.entry k = some info' → ∃ info, s.entry k = some info ∧ SameEntry info info' ∧
    (storedIn t k).2.2 = (storedIn s k).2.2 ∧
    ∀ row', t.disk.row k = some row' →
      (∃ row, s.disk.row k = some row ∧ row.Like row') ∨ written k info row'

/-- No row is written. -/
abbrev unwritten (_ : String) (_ : HttpCacheInfo) (_ : Row) : Prop := False

/-- What the calls that read and `putMetadata` do. -/
structure Reads (written : String → HttpCacheInfo → Row → Prop) (s t : HttpFileCache) : Prop where
  stays : Stays s t
  follows : Follows written s t

variable {written : String → HttpCacheInfo → Row → Prop}

/-- Nothing needs to change. -/
theorem follows_refl (s : HttpFileCache) : Follows written s s :=
  fun _ info hentry => ⟨info, hentry, ⟨rfl, id⟩, rfl, fun row hrow => .inl ⟨row, hrow, rfl⟩⟩

/-- Rows that are written last. -/
theorem Follows.trans (hst : Follows unwritten s t) (htu : Follows unwritten t u) :
    Follows unwritten s u := by
  intro k info'' hentry''
  obtain ⟨info', hentry', hsame', hfile', hrows'⟩ := htu k info'' hentry''
  obtain ⟨info, hentry, hsame, hfile, hrows⟩ := hst k info' hentry'
  refine ⟨info, hentry, hsame.trans hsame', hfile'.trans hfile, fun row'' hrow'' => .inl ?_⟩
  obtain ⟨row', hrow', hlike'⟩ := (hrows' row'' hrow'').resolve_right id
  obtain ⟨row, hrow, hlike⟩ := (hrows row' hrow').resolve_right id
  exact ⟨row, hrow, like_trans hlike hlike'⟩

theorem Follows.mono (h : Follows unwritten s t) : Follows written s t := by
  intro k info' hentry'
  obtain ⟨info, hentry, hsame, hfile, hrows⟩ := h k info' hentry'
  exact ⟨info, hentry, hsame, hfile, fun row' hrow' => .inl ((hrows row' hrow').resolve_right id)⟩

/-- What is left is as it was. -/
theorem follows_of_trimmed (ht : Trimmed may s t) : Follows written s t := by
  intro k info hentry
  have hstored : storedIn t k = storedIn s k := by
    unfold storedIn
    rw [ht.cacheRootDir_eq]
    exact ht.trims.stored_eq hentry
  have hrow : t.disk.row k = s.disk.row k := congrArg (fun p => p.2.1) hstored
  exact ⟨info, ht.trims.entry_of_entry hentry, ⟨rfl, id⟩, congrArg (fun p => p.2.2) hstored,
    fun row hrow' => .inl ⟨row, hrow ▸ hrow', rfl⟩⟩

/-- A lookup changes nothing that counts here. -/
theorem follows_of_touched (ht : Touched s t) : Follows written s t := by
  intro k info hentry
  rw [ht.entry_eq] at hentry
  refine ⟨info, hentry, ⟨rfl, id⟩, ?_, fun row' hrow' => .inl ?_⟩
  · show t.disk.files.find? (makeCachedFilename t.cacheRootDir k) = _
    rw [ht.files_eq, ht.cacheRootDir_eq]
    rfl
  · obtain ⟨hsome, hlike⟩ := ht.rows k
    rw [hrow'] at hsome
    obtain ⟨row, hrow⟩ := Option.isSome_iff_exists.mp hsome.symm
    exact ⟨row, hrow, hlike row row' hrow hrow'⟩

/-- Nor does an entry that is rewritten with the same reader. -/
theorem follows_of_rewritten {old : HttpCacheInfo} (hold : s.entry key = some old)
    (hsame : SameEntry old info) (ht : Rewritten key info s t) : Follows written s t := by
  intro k info' hentry'
  have hfile : (storedIn t k).2.2 = (storedIn s k).2.2 := by
    show t.disk.file (makeCachedFilename t.cacheRootDir k) = _
    rw [ht.disk_eq, ht.cacheRootDir_eq]
    rfl
  have hrows : ∀ row', t.disk.row k = some row' →
      (∃ row, s.disk.row k = some row ∧ row.Like row') ∨ written k info' row' :=
    fun row' hrow' => .inl ⟨row', ht.disk_eq ▸ hrow', rfl⟩
  rw [ht.entry_eq] at hentry'
  by_cases hk : k = key
  · subst hk
    rw [Function.update_self] at hentry'
    cases hentry'
    exact ⟨old, hold, hsame, hfile, fun row' hrow' => .inl ⟨row', ht.disk_eq ▸ hrow', rfl⟩⟩
  · rw [Function.update_of_ne hk] at hentry'
    exact ⟨info', hentry', ⟨rfl, id⟩, hfile, hrows⟩

/-- After a reset nothing is left. -/
theorem follows_of_reset (ht : Reset t u) : Follows written s u := by
  intro k info hentry
  unfold HttpFileCache.entry at hentry
  rw [ht.lruCacheStrategy_eq] at hentry
  cases hentry

theorem reads_refl (h : Synced s) : Reads unwritten s s := ⟨⟨h, refl_of _ _⟩, follows_refl s⟩

theorem Reads.mono (h : Reads unwritten s t) : Reads written s t := ⟨h.stays, h.follows.mono⟩

theorem Reads.trimmed (h : Reads unwritten s t) (ht : Trimmed may t u) : Reads unwritten s u :=
  ⟨⟨h.stays.1.trimmed ht, trans_of _ h.stays.2 ht.trims.later⟩,
    h.follows.trans (follows_of_trimmed ht)⟩

theorem Reads.touched (h : Reads unwritten s t) (ht : Touched t u) : Reads unwritten s u :=
  ⟨⟨h.stays.1.touched ht, trans_of _ h.stays.2 ht.later⟩, h.follows.trans (follows_of_touched ht)⟩

theorem Reads.rewritten (h : Reads unwritten s t) {old : HttpCacheInfo}
    (hold : t.entry key = some old) (hsame : SameEntry old info) (ht : Rewritten key info t u) :
    Reads unwritten s u :=
  ⟨⟨h.stays.1.rewritten hold hsame.1.symm ht, ht.disk_eq ▸ h.stays.2⟩,
    h.follows.trans (follows_of_rewritten hold hsame ht)⟩

theorem Reads.reset (h : Reads written s t) (ht : Reset t u) : Reads written s u :=
  ⟨⟨h.stays.1.reset ht, trans_of _ h.stays.2 ht.later⟩, follows_of_reset ht⟩

/-- A call that looks an entry up and goes on with what it found. -/
theorem wp_found {Q : α → HttpFileCache → Prop} {f : Option HttpCacheInfo → CacheExec α}
    (hs : Synced s)
    (hf : ∀ t, Reads unwritten s t → Untrimmed s t →
      wp (f (s.entry key)) Q (fun e u => Reads written s u ∧ Fails s.disk e) t) :
    wp (do
      initializeCache
      f (← lru (HttpLruCacheStrategy.get · key))) Q
      (fun e u => Reads written s u ∧ Fails s.disk e) s := by
  rw [wp_bind]
  refine wp_mono (wp_initializeCache hs.wf hs.emptyUntilInitialized) (fun _ t ht => ?_)
    fun e t ht => ⟨((reads_refl hs).trimmed ht.1).mono, .inl ht.2.2.1⟩
  have hst := (reads_refl hs).trimmed ht.1
  rw [wp_bind]
  refine wp_mono (wp_get_entry hst.stays.1.wf key) (fun found u hu => ?_) fun _ _ he => he.elim
  obtain ⟨rfl, htu, -⟩ := hu
  have hentry : t.entry key = s.entry key := congrFun ht.1.entry_eq key
  rw [hentry]
  exact hf u (hst.trimmed htu) (ht.1.trans htu)

/-- Reading metadata leaves rows and files as they are, or the corrupt database is reset. -/
theorem reads_getMetadata (hs : Synced s) (hworks : ResetWorks s.disk) (key : String) :
    wp (getMetadata json key) (fun _ t => Reads unwritten s t) (fun _ t => Reads unwritten s t)
      s := by
  unfold getMetadata
  refine wp_tryCatch_kept hworks (fun _ h => h.stays.2) (fun _ _ h hr => h.reset hr)
    (wp_found hs fun t hst _ => ?_) (fun _ h => h) fun _ h => h
  split
  · exact hst
  · split
    · exact hst
    · exact wp_mono (wp_readMetadata key) (fun _ u hu => hst.touched hu.1)
        fun e u hu => ⟨hst.touched hu.1, Fails.later hst.stays.2 hu.2⟩

/-- The end of a call that opens a stream. -/
theorem reads_addReader (hst : Reads unwritten s t) (hentry : t.entry key = some info)
    (hreserved : info.reservedRemove = false) (content : String) :
    wp (addReader key info content) (fun _ u => Reads unwritten s u)
      (fun e u => Reads unwritten s u ∧ Fails s.disk e) t :=
  have hsame : SameEntry info info.addDataRef := ⟨rfl, id⟩
  wp_mono (wp_addReader hst.stays.1.wf hentry hreserved content)
    (fun _ _ hu => hst.rewritten hentry hsame hu.2) fun _ _ he => he.elim

/-- So does `getData`. -/
theorem reads_getData (hs : Synced s) (hworks : ResetWorks s.disk) (key : String) :
    wp (getData key) (fun _ t => Reads unwritten s t) (fun _ t => Reads unwritten s t) s := by
  unfold getData
  refine wp_tryCatch_kept hworks (fun _ h => h.stays.2) (fun _ _ h hr => h.reset hr)
    (wp_found hs fun t hst hut => ?_) (fun _ h => h) fun _ h => h
  cases hentry : s.entry key with
  | none => exact hst
  | some info =>
    dsimp only
    cases hreserved : info.reservedRemove with
    | true => exact hst
    | false =>
      have hentry : t.entry key = some info := (congrFun hut.entry_eq key).trans hentry
      show wp (createStreamFromCache key >>= _) _ _ t
      rw [wp_bind]
      refine wp_mono (wp_createStreamFromCache key) (fun content u hu => ?_) fun _ _ he => he.elim
      cases content with
      | none => exact hst.touched hu.1
      | some content =>
        exact reads_addReader (hst.touched hu.1) ((congrFun (hu.1.entry_eq) key).trans hentry)
          hreserved content

/-- So does `get`. -/
theorem reads_get (hs : Synced s) (hworks : ResetWorks s.disk) (key : String) :
    wp (HttpFileCache.get json key) (fun _ t => Reads unwritten s t)
      (fun _ t => Reads unwritten s t) s := by
  unfold HttpFileCache.get
  refine wp_tryCatch_kept hworks (fun _ h => h.stays.2) (fun _ _ h hr => h.reset hr)
    (wp_found hs fun t hst hut => ?_) (fun _ h => h) fun _ h => h
  cases hentry : s.entry key with
  | none => exact hst
  | some info =>
    dsimp only
    cases hreserved : info.reservedRemove with
    | true => exact hst
    | false =>
      have hentry : t.entry key = some info := (congrFun hut.entry_eq key).trans hentry
      show wp (readMetadata json key >>= _) _ _ t
      rw [wp_bind]
      refine wp_mono (wp_readMetadata key) (fun metadata u hu => ?_) fun e u hu =>
        ⟨hst.touched hu.1, Fails.later hst.stays.2 hu.2⟩
      have hsu := hst.touched hu.1
      have hentry : u.entry key = some info := (congrFun (hu.1.entry_eq) key).trans hentry
      cases metadata with
      | none => exact hsu
      | some metadata =>
        show wp (createStreamFromCache key >>= _) _ _ u
        rw [wp_bind]
        refine wp_mono (wp_createStreamFromCache key) (fun content v hv => ?_) fun _ _ he => he.elim
        have hsv := hsu.touched hv.1
        cases content with
        | none => exact hsv
        | some content =>
          show wp (addReader key info content >>= _) _ _ v
          rw [wp_bind]
          exact reads_addReader hsv ((congrFun (hv.1.entry_eq) key).trans hentry) hreserved content

/-- The row that `putMetadata` writes. -/
def WritesRow (json : PocoJson) (key : String) (httpCacheMetadata : HttpCacheMetadata)
    (nowAtEpoch : Int64) (k : String) (info : HttpCacheInfo) (row : Row) : Prop :=
  k = key ∧ isWritable info = true ∧ row = httpCacheMetadata.toRow json nowAtEpoch

/-- The row of a listed key is replaced. -/
theorem reads_putMetadata (hs : Synced s) (hworks : ResetWorks s.disk) {key : String}
    {httpCacheMetadata : HttpCacheMetadata} (hkey : httpCacheMetadata.key = key) :
    wp (putMetadata json key httpCacheMetadata)
      (fun _ t => Reads (WritesRow json key httpCacheMetadata s.disk.nowAtEpoch) s t)
      (fun _ t => Reads (WritesRow json key httpCacheMetadata s.disk.nowAtEpoch) s t) s := by
  unfold putMetadata
  refine wp_tryCatch_kept hworks (fun _ h => h.stays.2) (fun _ _ h hr => h.reset hr)
    (wp_found hs fun t hst hut => ?_) (fun _ h => h) fun _ h => h
  -- without an entry that may be written nothing happens
  cases hentry : s.entry key with
  | none => exact hst.mono
  | some info =>
    dsimp only
    cases hwritable : isWritable info with
    | false => exact hst.mono
    | true =>
      have hentry' : t.entry key = some info := (congrFun hut.entry_eq key).trans hentry
      show wp (onDisk _ >>= _) _ _ t
      rw [wp_bind, wp_onDisk]
      refine wp_mono (wp_updateMetadata t.disk httpCacheMetadata) (fun _ d hd => ?_) fun e d hd =>
        ⟨(hst.touched (touched_of_same hd.1)).mono, Fails.later hst.stays.2 (.inl hd.2)⟩
      -- the row has been written, and the entry is as it was
      obtain ⟨hlater, hfiles, hrow⟩ := hd
      rw [hkey, hst.stays.2.1] at hrow
      have hsync := hst.stays.1
      refine ⟨⟨⟨⟨hsync.wf, hsync.serial_lt⟩, hsync.exact_total, fun k => ?_, hsync.uninitialized,
        hsync.cacheRootDir_ne⟩, trans_of _ hst.stays.2 hlater⟩, fun k info' hinfo' => ?_⟩
      · show (t.entry k).isSome = (d.row k).isSome
        rw [hrow]
        by_cases hk : k = key
        · rw [hk, Function.update_self, hentry']
          rfl
        · rw [Function.update_of_ne hk]
          exact hsync.coherent k
      · obtain ⟨old, hold, hsame, hfile, hrows⟩ := hst.follows k info' hinfo'
        refine ⟨old, hold, hsame, Eq.trans ?_ hfile, fun row' hrow' => ?_⟩
        · show d.files.find? _ = t.disk.files.find? _
          rw [hfiles]
        · have hrow' : d.row k = some row' := hrow'
          rw [hrow] at hrow'
          by_cases hk : k = key
          · subst hk
            rw [Function.update_self] at hrow'
            rw [hentry] at hold
            cases hold
            cases hrow'
            exact .inr ⟨rfl, hwritable, rfl⟩
          · rw [Function.update_of_ne hk] at hrow'
            exact .inl ((hrows row' hrow').resolve_right id)

/-! ## Calls that remove -/

/-- What the calls that remove keep. An entry that is left is what `after` makes of the one that
was there, with its row and its file, or it is a new one. -/
structure Settles (after : String → HttpCacheInfo → HttpCacheInfo) (s t : HttpFileCache) :
    Prop where
  synced : Synced t
  later : Disk.Later s.disk t.disk
  nextSerial_le : s.nextSerial ≤ t.nextSerial
  left : ∀ k info', t.entry k = some info' →
    (∃ info, s.entry k = some info ∧
      storedIn t k = (some (after k info), (storedIn s k).2)) ∨ s.nextSerial ≤ info'.serial

/-- Nothing is done to the entries that are left. -/
abbrev unchanged (_ : String) (info : HttpCacheInfo) : HttpCacheInfo := info

variable {after after' : String → HttpCacheInfo → HttpCacheInfo}

/-- When entries have left, what is left is as before. -/
theorem settles_of_trimmed (hs : Synced s) (ht : Trimmed may s t) : Settles unchanged s t where
  synced := hs.trimmed ht
  later := ht.trims.later
  nextSerial_le := Nat.le_of_eq ht.nextSerial_eq.symm
  left := by
    intro k info' hentry
    have hstored : storedIn t k = storedIn s k := by
      unfold storedIn
      rw [ht.cacheRootDir_eq]
      exact ht.trims.stored_eq hentry
    have hold : s.entry k = some info' := ht.trims.entry_of_entry hentry
    refine .inl ⟨info', hold, ?_⟩
    rw [hstored, ← hold]
    rfl

/-- After a reset nothing is left. -/
theorem settles_of_reset (hs : Synced s) (ht : Reset s t) : Settles after s t where
  synced := hs.reset ht
  later := ht.later
  nextSerial_le := Nat.le_of_eq ht.nextSerial_eq.symm
  left := by
    intro k info' hentry
    unfold HttpFileCache.entry at hentry
    rw [ht.lruCacheStrategy_eq] at hentry
    cases hentry

/-- An entry that is left twice has undergone both changes. -/
theorem Settles.trans (hst : Settles after s t) (htu : Settles after' t u)
    (hserial : ∀ k info, (after' k info).serial = info.serial) :
    Settles (fun k info => after' k (after k info)) s u where
  synced := htu.synced
  later := trans_of _ hst.later htu.later
  nextSerial_le := Nat.le_trans hst.nextSerial_le htu.nextSerial_le
  left := by
    intro k info'' hentry''
    rcases htu.left k info'' hentry'' with ⟨info', hentry', hstored'⟩ | hnew
    · rcases hst.left k info' hentry' with ⟨info, hentry, hstored⟩ | hnew
      · refine .inl ⟨info, hentry, ?_⟩
        have hinfo' : info' = after k info := by
          have hfirst : t.entry k = some (after k info) := congrArg Prod.fst hstored
          rw [hentry'] at hfirst
          exact Option.some.inj hfirst
        rw [hstored', hinfo', hstored]
      · right
        have hfirst : u.entry k = some (after' k info') := congrArg Prod.fst hstored'
        rw [hentry''] at hfirst
        rw [Option.some.inj hfirst, hserial]
        exact hnew
    · exact .inr (Nat.le_trans hst.nextSerial_le hnew)

/-- What is settled stays so when entries leave. -/
theorem Settles.trimmed (hst : Settles after s t) (htu : Trimmed may t u) : Settles after s u :=
  hst.trans (settles_of_trimmed hst.synced htu) fun _ _ => rfl

theorem Settles.reset (hst : Settles after s t) (htu : Reset t u) : Settles after s u :=
  have hreset : Settles unchanged t u := settles_of_reset hst.synced htu
  hst.trans hreset fun _ _ => rfl

/-- The entry of one key written over by what `after` makes of it. -/
theorem settles_of_rewritten (hs : Synced s) (hentry : s.entry key = some info)
    (hserial : (after key info).serial = info.serial)
    (hother : ∀ k, k ≠ key → ∀ i, after k i = i) (ht : Rewritten key (after key info) s t) :
    Settles after s t where
  synced := hs.rewritten hentry hserial ht
  later := ht.disk_eq ▸ refl_of _ _
  nextSerial_le := Nat.le_of_eq ht.nextSerial_eq.symm
  left := by
    intro k info' hentry'
    have hdisk : (storedIn t k).2 = (storedIn s k).2 := by
      show ((t.disk.row k), (t.disk.file _)) = _
      rw [ht.disk_eq, ht.cacheRootDir_eq]
      rfl
    have hstored : storedIn t k = (t.entry k, (storedIn s k).2) := by
      rw [← hdisk]
      rfl
    left
    rw [hstored]
    rw [ht.entry_eq] at hentry' ⊢
    by_cases hk : k = key
    · subst hk
      refine ⟨info, hentry, ?_⟩
      rw [Function.update_self]
    · rw [Function.update_of_ne hk] at hentry' ⊢
      refine ⟨info', hentry', ?_⟩
      rw [hother k hk, hentry']

/-- Only what is made of the entries that are there counts. -/
theorem Settles.congr (h : Settles after s t)
    (heq : ∀ k info, s.entry k = some info → after k info = after' k info) :
    Settles after' s t := by
  refine ⟨h.synced, h.later, h.nextSerial_le, fun k info' hentry' => ?_⟩
  refine (h.left k info' hentry').imp_left fun hold => ?_
  obtain ⟨info, hentry, hstored⟩ := hold
  exact ⟨info, hentry, heq k info hentry ▸ hstored⟩

/-- A corrupt database is a failure. -/
theorem fails_of_corruptFound {disk : Disk} {e : CacheException} (h : CorruptFound disk e) :
    Fails disk e := .inl (.inl h)

/-- A call that begins with the initialization and removes something. -/
theorem wp_removing {x corrupted failed : CacheExec α} (hs : Synced s)
    (hfiles : s.disk.FilesWork)
    (hx : ∀ t, Untrimmed s t → wp x (fun _ u => Settles after s u)
      (fun e u => Settles after s u ∧ Fails s.disk e) t)
    (hcorrupted : ∀ t, Settles after s t →
      wp corrupted (fun _ u => Settles after s u) (fun _ u => Settles after s u) t)
    (hfailed : ∀ t, Settles after s t →
      wp failed (fun _ u => Settles after s u) (fun _ u => Settles after s u) t) :
    wp (Exec.tryCatch (initializeCache >>= fun _ => x) (catchSql corrupted failed))
      (fun _ t => Settles after s t) (fun _ t => Settles after s t) s := by
  refine wp_tryCatch_kept (fun _ => hfiles) (fun _ h => h.later) (fun _ _ h hr => h.reset hr) ?_
    hcorrupted hfailed
  rw [wp_bind]
  refine wp_mono (wp_initializeCache hs.wf hs.emptyUntilInitialized) (fun _ t ht => hx t ht.1)
    fun e t ht => ⟨(settles_of_trimmed hs ht.1).congr fun k info hentry => ?_, .inl ht.2.2.1⟩
  rw [hs.uninitialized ht.2.2.2 k] at hentry
  cases hentry

/-- `remove` settles the entry of its key. -/
theorem settles_remove (hs : Synced s) (hfiles : s.disk.FilesWork) (key : String) :
    wp (HttpFileCache.remove key) (fun _ t => Settles (asBefore (.remove key)) s t)
      (fun _ t => Settles (asBefore (.remove key)) s t) s := by
  unfold HttpFileCache.remove
  refine wp_removing hs hfiles (fun t hst => ?_) (fun _ h => h) fun _ h => h
  have hsettled := settles_of_trimmed hs hst
  have hother : ∀ k, k ≠ key → ∀ i, asBefore (.remove key) k i = i :=
    fun k hk i => if_neg fun h => hk h.1.symm
  by_cases hbusy : ∃ info, t.entry key = some info ∧ info.dataRefCount ≠ 0
  · obtain ⟨info, hentry, hne⟩ := hbusy
    refine wp_mono (wp_removeInternal_busy hst.trims.wf hentry hne) (fun _ u hu => ?_)
      fun _ _ he => he.elim
    have hafter : asBefore (.remove key) key info = { info with reservedRemove := true } :=
      if_pos ⟨rfl, hne⟩
    have hmarked : Settles (asBefore (.remove key)) t u :=
      settles_of_rewritten hsettled.synced hentry (hafter ▸ rfl) hother (hafter ▸ hu.2)
    refine hsettled.trans hmarked fun k i => ?_
    show (if _ then _ else i).serial = _
    split <;> rfl
  · have hidle : IsIdle t.lruCacheStrategy key :=
      fun info hentry => not_not.mp fun hne => hbusy ⟨info, hentry, hne⟩
    -- nothing is marked
    have hafter : ∀ k info, s.entry k = some info → info = asBefore (.remove key) k info := by
      intro k info hentry
      refine (if_neg fun h => h.2 ?_).symm
      have hlisted : t.entry key = some info := by
        rw [congrFun hst.entry_eq key, h.1]
        exact hentry
      exact hidle info hlisted
    refine wp_mono (wp_removeInternal_idle hst.trims.wf (hst.trims.later.filesWork hfiles) hidle)
      (fun _ u hu => (hsettled.trimmed hu.1).congr hafter) fun e u hu =>
      ⟨(hsettled.trimmed hu.1).congr hafter,
        Fails.later hst.trims.later (fails_of_corruptFound hu.2.1)⟩

/-- The database file goes when nothing is listed any more. -/
theorem settles_purge (hs : Synced s) (hfiles : s.disk.FilesWork) (mayDeleteIfBusy : Bool) :
    wp (purge mayDeleteIfBusy) (fun _ t => Settles unchanged s t)
      (fun _ t => Settles unchanged s t) s := by
  unfold purge
  refine wp_removing hs hfiles (fun t hst => ?_) (fun _ h => h) fun _ h => h
  have hsettled := settles_of_trimmed hs hst
  rw [wp_bind, wp_lru]
  refine wp_mono (wp_clear (s := t.stores) hst.trims.wf (hst.trims.later.filesWork hfiles)
    mayDeleteIfBusy) (fun ret p hp => ?_) fun e p hp =>
    ⟨hsettled.trimmed (trimmed_of_trims hp.1),
      Fails.later hst.trims.later (fails_of_corruptFound hp.2)⟩
  have hcleared := hsettled.trimmed (trimmed_of_trims hp.1)
  cases ret with
  | false => exact hcleared
  | true =>
    have hnone : ∀ k, (t.withStores p).entry k = none := hp.2 rfl
    show wp (deleteCacheFile >>= _) _ _ _
    unfold deleteCacheFile
    rw [wp_bind, wp_bind, wp_onDisk]
    refine wp_mono (wp_deleteDatabaseFile _) (fun _ d hd => ?_) fun _ _ he => he.elim
    obtain ⟨hlater, -, hrows⟩ := hd
    have hrows : d.rows = SortedMap.empty :=
      hrows.resolve_left fun h => h.2 (hcleared.later.filesWork hfiles)
    refine ⟨⟨⟨hcleared.synced.wf, hcleared.synced.serial_lt⟩, hcleared.synced.exact_total,
      fun k => ?_, hcleared.synced.uninitialized, hcleared.synced.cacheRootDir_ne⟩,
      trans_of _ hcleared.later hlater, hcleared.nextSerial_le, fun k info' hentry' => ?_⟩
    · have hrow : d.row k = none := by
        unfold Disk.row
        rw [hrows]
        rfl
      show ((t.withStores p).entry k).isSome = (d.row k).isSome
      rw [hnone, hrow]
      rfl
    · have hentry' : (t.withStores p).entry k = some info' := hentry'
      rw [hnone] at hentry'
      cases hentry'

/-- A release settles the entry it was opened on. -/
theorem settles_releaseData (hs : Synced s) (hfiles : s.disk.FilesWork) (reader : Reader) :
    wp (releaseData reader.key) (fun _ t => Settles (asBefore (.close reader)) s t)
      (fun _ t => Settles (asBefore (.close reader)) s t) s := by
  have hother : ∀ k, k ≠ reader.key → ∀ i, asBefore (.close reader) k i = i :=
    fun k hk i => if_neg fun h => hk h.symm
  -- a release does not change which object it is
  have hserial : ∀ k i, (asBefore (.close reader) k i).serial = i.serial := by
    intro k i
    show (if _ then _ else i).serial = _
    split
    · exact serial_releaseDataRef
    · rfl
  unfold releaseData
  rw [wp_bind]
  refine wp_mono (wp_get_entry hs.wf reader.key) (fun found t ht => ?_) fun _ _ he => he.elim
  obtain ⟨rfl, hst, -⟩ := ht
  have hsettled := settles_of_trimmed hs hst
  -- an entry without readers, or none, stays as it is
  have hsame : (∀ info, s.entry reader.key = some info → info.dataRefCount = 0) →
      Settles (asBefore (.close reader)) s t := by
    intro hzero
    refine hsettled.congr fun k info hentry => ?_
    by_cases hk : k = reader.key
    · subst hk
      show info = if _ then info.releaseDataRef else info
      unfold HttpCacheInfo.releaseDataRef
      rw [if_pos (hzero info hentry), ite_self]
    · exact (hother k hk info).symm
  cases hentry : s.entry reader.key with
  | none => exact hsame fun info h => by rw [hentry] at h; cases h
  | some info =>
    have hlisted : t.entry reader.key = some info := (congrFun hst.entry_eq _).trans hentry
    by_cases hzero : info.dataRefCount = 0
    · simp only [if_pos hzero]
      refine hsame fun i hi => ?_
      rw [hentry] at hi
      cases hi
      exact hzero
    · simp only [if_neg hzero]
      have hafter : asBefore (.close reader) reader.key info = info.releaseDataRef := if_pos rfl
      -- whatever comes after the update keeps the cache in step
      have hend : ∀ u, Settles (asBefore (.close reader)) s u →
          wp (pure () : CacheExec Unit) (fun _ v => Settles (asBefore (.close reader)) s v)
            (fun _ v => Settles (asBefore (.close reader)) s v) u := fun _ h => h
      have hsize : info.releaseDataRef.dataSize = info.dataSize := by
        unfold HttpCacheInfo.releaseDataRef
        split <;> rfl
      have hkey : info.releaseDataRef.key = reader.key := by
        have hk : info.key = reader.key := (hst.trims.wf.entry_eq_some_iff.mp hlisted).2
        unfold HttpCacheInfo.releaseDataRef
        split <;> exact hk
      -- the entry is pushed with one stream less
      have hpush := rewritten_push hst.trims.wf hlisted hkey hsize
      rw [← hafter] at hpush
      have hpushed := hsettled.trans (settles_of_rewritten hsettled.synced hlisted (hserial _ _)
        hother hpush) hserial
      rw [hafter] at hpushed
      have hupdated : wp (lru (HttpLruCacheStrategy.update · reader.key info.releaseDataRef))
          (fun _ u => Settles (asBefore (.close reader)) s u)
          (fun _ u => Settles (asBefore (.close reader)) s u) t := by
        refine wp_update_listed hlisted hsize (fun _ _ => ?_) fun _ => hpushed
        -- the last reader of an entry whose removal is reserved
        rw [wp_lru]
        have hremoved : wp (LruCacheByDataSizeStrategy.remove (listener t.cacheRootDir) reader.key)
            _ _ _ := wp_remove_base (s := HttpFileCache.stores { t with
            lruCacheStrategy := t.lruCacheStrategy.push reader.key info.releaseDataRef })
          hpushed.synced.wf (hpushed.later.filesWork hfiles) reader.key
        exact wp_mono hremoved (fun _ p hp => hpushed.trimmed (trimmed_of_trims hp.1))
          fun _ p hp => hpushed.trimmed (trimmed_of_trims hp.1)
      rw [wp_tryCatch, wp_bind]
      exact wp_mono hupdated (fun _ u hu => hend u hu) fun e u hu =>
        wp_catchSql (fun _ => ⟨hu.later.filesWork hfiles, fun v hv => hend v (hu.reset hv)⟩)
          (hend u hu) fun _ _ => hu

/-! ## `put` -/

/-- There is room for a new entry of a key that is not listed. -/
structure Ready (key : String) (size : UInt64) (s : HttpFileCache) : Prop where
  entry_eq : s.entry key = none
  initialized : s.cacheInitialized = true
  fits : s.lruCacheStrategy.totalSize.toNat + size.toNat < 2 ^ 64
  files : s.disk.FilesWork ∨
    s.lruCacheStrategy.totalSize.toNat + size.toNat ≤ s.lruCacheStrategy.maxSize.toNat
  held : heldSize (fun info => info.dataRefCount = 0) s.lruCacheStrategy + size.toNat ≤
    s.lruCacheStrategy.maxSize.toNat

/-- What the trimming of the list leaves of the conditions on the room. -/
theorem files_trimmed (hs : Synced s) (ht : Trimmed may s t) {size : UInt64}
    (hfits : s.lruCacheStrategy.totalSize.toNat + size.toNat < 2 ^ 64)
    (hfiles : s.disk.FilesWork ∨
      s.lruCacheStrategy.totalSize.toNat + size.toNat ≤ s.lruCacheStrategy.maxSize.toNat) :
    t.lruCacheStrategy.totalSize.toNat + size.toNat < 2 ^ 64 ∧
      (t.disk.FilesWork ∨
        t.lruCacheStrategy.totalSize.toNat + size.toNat ≤ t.lruCacheStrategy.maxSize.toNat) := by
  have hle : t.lruCacheStrategy.totalSize.toNat ≤ s.lruCacheStrategy.totalSize.toNat :=
    (ht.trims.exact_total hs.exact_total).2
  have hmax : t.lruCacheStrategy.maxSize = s.lruCacheStrategy.maxSize := ht.trims.maxSize_eq
  refine ⟨by omega, hfiles.imp ht.trims.later.filesWork fun hroom => ?_⟩
  rw [hmax]
  omega

/-- The last step of `makeRoom`. -/
theorem wp_makeSpace_ready (hs : Synced s) {size : UInt64} (hentry : s.entry key = none)
    (hinit : s.cacheInitialized = true)
    (hfits : s.lruCacheStrategy.totalSize.toNat + size.toNat < 2 ^ 64)
    (hfiles : s.disk.FilesWork ∨
      s.lruCacheStrategy.totalSize.toNat + size.toNat ≤ s.lruCacheStrategy.maxSize.toNat) :
    wp (lru (HttpLruCacheStrategy.makeSpace · size))
      (fun ret t => Trimmed (fun _ _ => True) s t ∧ (ret = true → Ready key size t))
      (fun e t => Trimmed (fun _ _ => True) s t ∧ CorruptFound s.disk e) s := by
  refine wp_mono (wp_makeSpace_held hs.exact_total size hfits hfiles) (fun ret t ht => ?_)
    fun e t ht => ⟨ht.1.mono fun _ _ _ _ => trivial, ht.2⟩
  obtain ⟨hst, hanswer⟩ := ht
  obtain ⟨hfits', hfiles'⟩ := files_trimmed hs hst hfits hfiles
  refine ⟨hst.mono fun _ _ _ _ => trivial, fun hret => ?_⟩
  refine ⟨hst.trims.gone hentry, hst.initialized hinit, hfits', hfiles', ?_⟩
  have hheld := heldSize_trims hs.wf hst.trims fun _ _ h => h
  have hmax : t.lruCacheStrategy.maxSize = s.lruCacheStrategy.maxSize := hst.trims.maxSize_eq
  have hheld' : heldSize (fun info => info.dataRefCount = 0) t.lruCacheStrategy =
    heldSize (fun info => info.dataRefCount = 0) s.lruCacheStrategy := hheld
  rw [hheld', hmax]
  exact hanswer.mp hret

/-- To make room leaves no old entry of the key. -/
theorem wp_makeRoom (hs : Synced s) {key : String} {size : UInt64}
    (hcorrupt : Fault.corrupt ∉ s.disk.faults.database)
    (hfits : s.lruCacheStrategy.totalSize.toNat + size.toNat < 2 ^ 64)
    (hhead : ∀ info ∈ s.entry key, isWritable info = true →
      s.disk.faults.database.headD .none = .none)
    (hfiles : s.disk.FilesWork ∨ s.cacheInitialized = true ∧ s.entry key = none ∧
      s.lruCacheStrategy.totalSize.toNat + size.toNat ≤ s.lruCacheStrategy.maxSize.toNat) :
    wp (makeRoom key size)
      (fun ret t => Trimmed (fun _ _ => True) s t ∧ (ret = true → Ready key size t))
      (fun _ _ => False) s := by
  -- whatever fails, the answer is false
  have hfailed : ∀ e t, Trimmed (fun _ _ => True) s t ∧ Disk.DatabaseFails s.disk e →
      wp (catchSql (return true) (return false) e)
        (fun ret t => Trimmed (fun _ _ => True) s t ∧ (ret = true → Ready key size t))
        (fun _ _ => False) t := by
    intro e t ht
    rcases ht.2 with ⟨-, hmem⟩ | ⟨⟨message, rfl⟩, -⟩
    · exact absurd hmem hcorrupt
    · exact ⟨ht.1, nofun⟩
  have hcorruptFound : ∀ {t e}, Disk.Later s.disk t → CorruptFound t e →
      Disk.DatabaseFails s.disk e := fun hlater h => .inl ⟨h.1, hlater.mem_database h.2⟩
  have hroom := hfiles.imp_right fun h => h.2.2
  unfold makeRoom
  rw [wp_tryCatch]
  refine wp_mono (E := fun e t => Trimmed (fun _ _ => True) s t ∧ Disk.DatabaseFails s.disk e) ?_
    (fun _ _ h => h) hfailed
  rw [wp_bind]
  refine wp_mono (wp_initializeCache hs.wf hs.emptyUntilInitialized) (fun _ t ht => ?_)
    fun e t ht => ⟨ht.1.of_untrimmed, ht.2.2.1⟩
  obtain ⟨hst, -, hkept, hcreated⟩ := ht
  -- the cache is initialized when the entry is looked for
  have hinit : t.cacheInitialized = true := by
    rcases hfiles with hwork | ⟨hinit, -⟩
    · exact hcreated hwork hs.cacheRootDir_ne
    · exact hst.initialized hinit
  rw [wp_bind]
  refine wp_mono (wp_get_entry (hs.trimmed hst).wf key) (fun found u hu => ?_)
    fun _ _ he => he.elim
  obtain ⟨rfl, htu, hdisk, hinit', -⟩ := hu
  have hsu : Untrimmed s u := hst.trans htu
  have hinit' : u.cacheInitialized = true := hinit'.trans hinit
  obtain ⟨hfits', hfiles'⟩ := files_trimmed hs hsu hfits hroom
  have hentry : t.entry key = s.entry key := congrFun hst.entry_eq key
  rw [hentry]
  -- without an entry only room is made
  cases hlisted : s.entry key with
  | none =>
    have hgone : u.entry key = none := hsu.trims.gone hlisted
    refine wp_mono (wp_makeSpace_ready (hs.trimmed hsu) hgone hinit' hfits' hfiles')
      (fun _ v hv => ⟨hsu.of_untrimmed.trans hv.1, hv.2⟩) fun e v hv =>
      ⟨hsu.of_untrimmed.trans hv.1, hcorruptFound hsu.trims.later hv.2⟩
  | some info =>
    dsimp only
    cases hwritable : isWritable info with
    | false => exact ⟨hsu.of_untrimmed, nofun⟩
    | true =>
      have hwork : s.disk.FilesWork := hfiles.resolve_right fun h => by
        rw [hlisted] at h
        cases h.2.1
      -- the cache was initialized before, so the list is as it was
      have hsame : t = s := hkept <| by
        cases hs' : s.cacheInitialized with
        | true => rfl
        | false =>
          rw [hs.uninitialized hs' key] at hlisted
          cases hlisted
      subst hsame
      have hlisted' : u.entry key = some info := (congrFun hsu.entry_eq key).trans hlisted
      have hzero : info.dataRefCount = 0 := by
        unfold isWritable at hwritable
        rw [Bool.and_eq_true] at hwritable
        exact of_decide_eq_true hwritable.2
      -- an entry that may be written is idle, and is removed first
      have hidle : IsIdle u.lruCacheStrategy key := by
        intro i hi
        have hi : u.entry key = some i := hi
        rw [hlisted'] at hi
        cases hi
        exact hzero
      have hrow : (u.disk.row key).isSome := by
        rw [← (hs.trimmed hsu).coherent key, hlisted']
        rfl
      show wp (removeInternal key >>= _) _ _ u
      rw [wp_bind]
      refine wp_mono (wp_removeInternal_idle hsu.trims.wf (hsu.trims.later.filesWork hwork) hidle)
        (fun ret v hv => ?_) fun e v hv => ?_
      -- the old entry is gone, with its row and its file
      · obtain ⟨huv, hgone, -, hanswer⟩ := hv
        have hret : ret = true := by
          refine hanswer ?_ (by rw [hlisted']; rfl) hrow
          rw [hdisk]
          exact hhead info hlisted hwritable
        have hsv : Trimmed (fun _ _ => True) t v :=
          hsu.of_untrimmed.trans (huv.mono fun _ _ _ _ => trivial)
        obtain ⟨hfits'', hfiles''⟩ := files_trimmed hs hsv hfits hroom
        have hnone : v.entry key = none := congrArg Prod.fst (hgone hret)
        refine wp_mono (wp_makeSpace_ready (hs.trimmed hsv) hnone (hsv.initialized hinit) hfits''
          hfiles'') (fun _ w hw => ⟨hsv.trans hw.1, hw.2⟩) fun e w hw =>
          ⟨hsv.trans hw.1, hcorruptFound hsv.trims.later hw.2⟩
      · exact ⟨hsu.of_untrimmed.trans (hv.1.mono fun _ _ _ _ => trivial),
          hcorruptFound hsu.trims.later hv.2.1⟩

/-- The file of a key that is not listed plays no part. -/
theorem settles_of_othersKept (hs : Synced s) (hentry : s.entry key = none) {disk : Disk}
    (hrow : disk.row = s.disk.row) (hkept : OthersKept s.cacheRootDir key s.disk disk) {n : ℕ}
    (hn : s.nextSerial ≤ n) :
    Settles unchanged s { s with disk := disk, nextSerial := n } where
  synced := by
    refine ⟨⟨hs.wf, fun k info hinfo => Nat.lt_of_lt_of_le (hs.serial_lt k info hinfo) hn⟩,
      hs.exact_total, fun k => ?_, hs.uninitialized, hs.cacheRootDir_ne⟩
    show _ = (disk.row k).isSome
    rw [hrow]
    exact hs.coherent k
  later := hkept.1
  nextSerial_le := hn
  left := by
    intro k info hinfo
    have hinfo : s.entry k = some info := hinfo
    have hk : k ≠ key := by
      rintro rfl
      rw [hentry] at hinfo
      cases hinfo
    refine .inl ⟨info, hinfo, ?_⟩
    show (s.entry k, disk.row k, disk.file _) = _
    rw [hinfo, hrow, hkept.2 k hk]
    rfl

/-- A new entry is one of the key, with this row and this file. -/
def Adds (key : String) (row : Row) (file : Option String) (s t : HttpFileCache) : Prop :=
  ∀ k info, t.entry k = some info → s.nextSerial ≤ info.serial →
    k = key ∧ (storedIn t k).2 = (some row, file)

/-- No entry is new. -/
theorem adds_of_trimmed (hs : Synced s) (ht : Trimmed may s t) (hlist : u.entry = t.entry)
    {row : Row} {file : Option String} : Adds key row file s u := by
  intro k info hentry hnew
  rw [hlist] at hentry
  have hlt := hs.serial_lt k info (ht.trims.entry_of_entry hentry)
  omega

/-- A new entry with its row. -/
theorem settles_of_added (hs : Synced s) (hentry : s.entry key = none) {row : Row}
    (hrow : t.disk.row = Function.update s.disk.row key (some row))
    (hkept : OthersKept s.cacheRootDir key s.disk t.disk) (hlist : t.entry = s.entry)
    (hroot : t.cacheRootDir = s.cacheRootDir) (htu : Trimmed may t u)
    (hu : u.cacheInitialized = true) (hexact : Exact u.lruCacheStrategy)
    (hfits : u.lruCacheStrategy.totalSize.toNat + info.dataSize.toNat < 2 ^ 64)
    (hkey : info.key = key) (hserial : info.serial = s.nextSerial)
    (hnext : u.nextSerial = s.nextSerial + 1) :
    Settles unchanged s { u with lruCacheStrategy := u.lruCacheStrategy.push key info } := by
  have hgone : u.entry key = none := htu.trims.gone ((congrFun hlist key).trans hentry)
  have hpush : (u.lruCacheStrategy.push key info).entry =
      Function.update u.entry key (some info) := hexact.wf.entry_push hkey
  -- the row of the new entry is not touched
  have hrow_key : u.disk.row key = some row := by
    rcases htu.trims.each key with hsame | ⟨-, old, hold, -⟩
    · have hr : u.disk.row key = t.disk.row key := congrArg (fun p => p.2.1) hsame
      rw [hr, hrow, Function.update_self]
    · have hold : t.entry key = some old := hold
      rw [hlist, hentry] at hold
      cases hold
  have hstored : ∀ k, k ≠ key → stored t.cacheRootDir t.stores k = storedIn s k := by
    intro k hk
    show (t.entry k, t.disk.row k, t.disk.file _) = (s.entry k, s.disk.row k, s.disk.file _)
    rw [hlist, hrow, Function.update_of_ne hk, hroot, hkept.2 k hk]
  have hroot' : u.cacheRootDir = t.cacheRootDir := htu.cacheRootDir_eq
  refine ⟨⟨⟨hexact.wf.wf_push hkey, fun k i hi => ?_⟩, ?_, fun k => ?_, fun hinit => ?_, ?_⟩,
    trans_of _ hkept.1 htu.trims.later, ?_, fun k i hi => ?_⟩
  · have hi : (u.lruCacheStrategy.push key info).entry k = some i := hi
    show i.serial < u.nextSerial
    rw [hpush] at hi
    rw [hnext]
    -- the new entry, or one that was there
    by_cases hk : k = key
    · rw [hk, Function.update_self] at hi
      cases hi
      omega
    · rw [Function.update_of_ne hk] at hi
      have hold : s.entry k = some i := by
        rw [← hlist]
        exact htu.trims.entry_of_entry hi
      exact Nat.lt_succ_of_lt (hs.serial_lt k i hold)
  · refine (hexact.push hkey ?_).1
    have hsize : (CacheInfo.getDataSize info).toNat = info.dataSize.toNat := rfl
    omega
  · show ((u.lruCacheStrategy.push key info).entry k).isSome = (u.disk.row k).isSome
    rw [hpush]
    -- the new entry has its row, and the others have theirs
    by_cases hk : k = key
    · rw [hk, Function.update_self, hrow_key]
      rfl
    · rw [Function.update_of_ne hk]
      rcases htu.trims.each k with hsame | ⟨hnone, -⟩
      · have hboth := hsame.trans (hstored k hk)
        have he : u.entry k = s.entry k := congrArg Prod.fst hboth
        have hr : u.disk.row k = s.disk.row k := congrArg (fun p => p.2.1) hboth
        rw [he, hr]
        exact hs.coherent k
      · have he : u.entry k = none := congrArg Prod.fst hnone
        have hr : u.disk.row k = none := congrArg (fun p => p.2.1) hnone
        rw [he, hr]
        rfl
  · have hinit : u.cacheInitialized = false := hinit
    rw [hu] at hinit
    cases hinit
  · show u.cacheRootDir ≠ ""
    rw [hroot', hroot]
    exact hs.cacheRootDir_ne
  · show s.nextSerial ≤ u.nextSerial
    omega
  · have hi : (u.lruCacheStrategy.push key info).entry k = some i := hi
    rw [hpush] at hi
    -- the new entry has no streams yet
    by_cases hk : k = key
    · rw [hk, Function.update_self] at hi
      cases hi
      exact .inr (Nat.le_of_eq hserial.symm)
    · rw [Function.update_of_ne hk] at hi
      have hboth := (htu.trims.stored_eq hi).trans (hstored k hk)
      have hold : s.entry k = some i := (congrArg Prod.fst hboth).symm.trans hi
      refine .inl ⟨i, hold, ?_⟩
      show ((u.lruCacheStrategy.push key info).entry k, u.disk.row k, u.disk.file _) = _
      rw [hpush, Function.update_of_ne hk, hroot']
      refine hboth.trans ?_
      show (s.entry k, _, _) = _
      rw [hold]
      rfl

/-- The row and the file of the new entry are not touched when room is made for it. -/
theorem adds_of_added {v : HttpFileCache} {may' : String → HttpCacheInfo → Prop} {row : Row}
    {file : Option String} (hs : Synced s) (hst : Trimmed may s t) (hentry : t.entry key = none)
    (hlist : u.entry = t.entry) (hwf : v.lruCacheStrategy.Wf) (hrow : u.disk.row key = some row)
    (hfile : u.disk.file (makeCachedFilename u.cacheRootDir key) = file) (huv : Trimmed may' u v)
    (hkey : info.key = key) :
    Adds key row file s { v with lruCacheStrategy := v.lruCacheStrategy.push key info } := by
  intro k i hi hnew
  have hi : (v.lruCacheStrategy.push key info).entry k = some i := hi
  rw [hwf.entry_push hkey] at hi
  by_cases hk : k = key
  · subst hk
    refine ⟨rfl, ?_⟩
    have hgone : u.entry k = none := (congrFun hlist k).trans hentry
    have hsame := (huv.trims.each k).resolve_right fun hout => by
      obtain ⟨-, old, hold, -⟩ := hout
      have hold : u.entry k = some old := hold
      rw [hgone] at hold
      cases hold
    have hr : v.disk.row k = u.disk.row k := congrArg (fun p => p.2.1) hsame
    have hf : v.disk.file (makeCachedFilename u.cacheRootDir k) =
      u.disk.file (makeCachedFilename u.cacheRootDir k) := congrArg (fun p => p.2.2) hsame
    show (v.disk.row k, v.disk.file (makeCachedFilename v.cacheRootDir k)) = _
    rw [huv.cacheRootDir_eq, hr, hf, hrow, hfile]
  · rw [Function.update_of_ne hk] at hi
    have hold : u.entry k = some i := huv.trims.entry_of_entry hi
    rw [hlist] at hold
    have hlt := hs.serial_lt k i (hst.trims.entry_of_entry hold)
    omega

/-- What `put` does. -/
structure Puts (json : PocoJson) (key : String) (httpCacheMetadata : HttpCacheMetadata)
    (path : String) (s t : HttpFileCache) : Prop where
  settles : Settles unchanged s t
  adds : Adds key (httpCacheMetadata.toRow json s.disk.nowAtEpoch) (s.disk.file path) s t

/-- A sound put stores all, or nothing of the key. -/
theorem puts_put (hs : Synced s) {key : String} {httpCacheMetadata : HttpCacheMetadata}
    {path : String} (hsound : SoundPut s key httpCacheMetadata path) :
    wp (put json key httpCacheMetadata path) (fun _ t => Puts json key httpCacheMetadata path s t)
      (fun _ t => Puts json key httpCacheMetadata path s t) s := by
  obtain ⟨hmeta, hpath, hcorrupt, hfits, hhead, hfiles⟩ := hsound
  unfold put
  rw [wp_bind]
  refine wp_mono (wp_makeRoom hs hcorrupt hfits hhead hfiles) (fun ret t ht => ?_)
    fun _ _ he => he.elim
  obtain ⟨hst, hready⟩ := ht
  have hsettled := settles_of_trimmed hs hst
  -- without room nothing is put
  cases ret with
  | false => exact ⟨hsettled, adds_of_trimmed hs hst rfl⟩
  | true =>
    obtain ⟨hentry, hinit, hfits', hfiles', hheld⟩ := hready rfl
    have hsync := hsettled.synced
    -- what is done to the file of the key does not matter
    have hsettle : ∀ {disk : Disk}, disk.row = t.disk.row →
        OthersKept t.cacheRootDir key t.disk disk → Puts json key httpCacheMetadata path s
          { t with disk := disk, nextSerial := t.nextSerial + 1 } :=
      fun hrow hkept => ⟨hsettled.trans
        (settles_of_othersKept hsync hentry hrow hkept (Nat.le_succ _)) fun _ _ => rfl,
        adds_of_trimmed hs hst (by rfl)⟩
    show wp (newHttpCacheInfo key httpCacheMetadata.responseBodySize >>= _) _ _ t
    unfold newHttpCacheInfo
    rw [wp_bind, wp_bind, wp_getState, wp_bind, wp_modifyState, wp_pure, wp_bind, wp_getState]
    rw [wp_bind, wp_onDisk]
    have hpath' : isBodyFile t.cacheRootDir path = false := hst.cacheRootDir_eq ▸ hpath
    refine wp_mono (wp_moveFile t.disk path _) (fun moved d hd => ?_) fun e d hd => ?_
    · have hkept := othersKept_of_movesFile hpath' hd
      have hrow : d.row = t.disk.row := congrArg SortedMap.find? hd.2.1
      -- the body could not be moved, or it is in its place
      cases moved with
      | false => exact hsettle hrow hkept
      | true =>
        have hcorrupt' : Fault.corrupt ∉ d.faults.database :=
          fun h => hcorrupt (hst.trims.later.mem_database (hkept.1.mem_database h))
        show wp (storeMetadata json httpCacheMetadata _ >>= _) _ _ _
        rw [wp_bind]
        refine wp_mono (wp_storeMetadata (s := { t with
          disk := d
          nextSerial := t.nextSerial + 1 }) (.inl hinit) hcorrupt' key) (fun ret v hv => ?_)
          fun _ _ he => he.elim
        obtain ⟨disk, rfl, hothers, hanswer⟩ := hv
        have hkept' : OthersKept t.cacheRootDir key t.disk disk :=
          ⟨trans_of _ hkept.1 hothers.1, fun k hk => (hothers.2 k hk).trans (hkept.2 k hk)⟩
        cases ret with
        | false => exact hsettle (hanswer.trans hrow) hkept'
        | true =>
          have hnow : d.nowAtEpoch = s.disk.nowAtEpoch := hkept.1.1.trans hst.trims.later.1
          have hrow' : disk.row = Function.update t.disk.row key
              (some (httpCacheMetadata.toRow json s.disk.nowAtEpoch)) := by
            have h : disk.row = Function.update d.row httpCacheMetadata.key
              (some (httpCacheMetadata.toRow json d.nowAtEpoch)) := hanswer.2
            rw [h, hmeta, hrow, hnow]
          have hfile : disk.file (makeCachedFilename t.cacheRootDir key) = s.disk.file path := by
            obtain ⟨content, hsource, hmoved⟩ := hd.2.2
            have hsame : disk.file = d.file := congrArg SortedMap.find? hanswer.1
            rw [hsame, hmoved, Function.update_self, ← hsource]
            exact hst.trims.others path (ne_makeCachedFilename hpath)
          show wp (lru (HttpLruCacheStrategy.update · key _) >>= _) _ _ _
          rw [wp_bind]
          refine wp_mono (wp_update_new (s := { t with
            disk := disk
            nextSerial := t.nextSerial + 1 }) hsync.exact_total hentry rfl hfits' ?_ hheld)
            (fun _ v hv => ?_) fun e v hv => ?_
          · exact hfiles'.imp_left hkept'.1.filesWork
          · obtain ⟨u, htu, -, rfl⟩ := hv
            have hexact := htu.trims.exact_total hsync.exact_total
            have hle : u.lruCacheStrategy.totalSize.toNat ≤ t.lruCacheStrategy.totalSize.toNat :=
              hexact.2
            refine ⟨hsettled.trans (settles_of_added (t := { t with
              disk := disk
              nextSerial := t.nextSerial + 1 }) hsync hentry hrow' hkept' rfl rfl htu
              (htu.initialized hinit) hexact.1 ?_ rfl rfl htu.nextSerial_eq) fun _ _ => rfl, ?_⟩
            · show _ + httpCacheMetadata.responseBodySize.toNat < _
              omega
            · refine adds_of_added (u := { t with
                disk := disk
                nextSerial := t.nextSerial + 1 }) hs hst hentry rfl hexact.1.wf ?_ hfile htu rfl
              exact (congrFun hrow' key).trans (Function.update_self ..)
          · have hmem := hkept'.1.mem_database hv.2.2
            exact absurd (hst.trims.later.mem_database hmem) hcorrupt
    -- the move has thrown, and the rows are as they were
    · refine hsettle hd.1.row ⟨hd.1.1, fun k _ => ?_⟩
      rw [hd.1.file]

/-! ## Runs -/

/-- An action begins in sync. -/
theorem Synced.start {cache : HttpFileCache} (h : Synced cache) (action : Action) :
    Synced (start cache action) :=
  ⟨⟨h.wf, h.serial_lt⟩, h.exact_total, h.coherent, h.uninitialized, h.cacheRootDir_ne⟩

/-- A file that is no body file. -/
theorem settles_createFile (hs : Synced s) {path : String} (content : String)
    (hpath : isBodyFile s.cacheRootDir path = false) :
    Settles unchanged s { s with disk := { s.disk with
      files := s.disk.files.set path content } } where
  synced := ⟨⟨hs.wf, hs.serial_lt⟩, hs.exact_total, hs.coherent, hs.uninitialized,
    hs.cacheRootDir_ne⟩
  later := ⟨rfl, List.suffix_refl _, List.suffix_refl _⟩
  nextSerial_le := Nat.le_refl _
  left := by
    intro k info hentry
    have hentry : s.entry k = some info := hentry
    have hne : makeCachedFilename s.cacheRootDir k ≠ path := by
      intro heq
      have htrue := isBodyFile_makeCachedFilename s.cacheRootDir k
      rw [heq, hpath] at htrue
      cases htrue
    refine .inl ⟨info, hentry, ?_⟩
    show (s.entry k, s.disk.row k, (s.disk.files.set path content).find? _) = _
    rw [hentry, SortedMap.find?_set_eq, Function.update_of_ne hne]
    rfl

/-- What each call keeps, from the state it starts in. -/
theorem step_cases (s : System) (action : Action) (s' : System) (h : Synced s.cache)
    (hsound : Sound s action) (hstep : step json s action = some s') :
    Synced s'.cache ∧ (removes action.call = true →
      Settles (asBefore action.call) (start s.cache action) s'.cache) := by
  have hs := h.start action
  -- a call that only removes is left to the rules above
  have hremoved : ∀ {after : String → HttpCacheInfo → HttpCacheInfo} {t : HttpFileCache},
      Settles after (start s.cache action) t → (∀ k info, after k info =
        asBefore action.call k info) → Synced t ∧ (removes action.call = true →
      Settles (asBefore action.call) (start s.cache action) t) :=
    fun hsettled hsame => ⟨hsettled.synced, fun _ => hsettled.congr fun k info _ => hsame k info⟩
  have hkept : ∀ {t : HttpFileCache}, removes action.call = false → Stays (start s.cache action) t →
      Synced t ∧ (removes action.call = true →
        Settles (asBefore action.call) (start s.cache action) t) :=
    fun hno hstays => ⟨hstays.1, fun hyes => absurd (hno.symm.trans hyes) Bool.false_ne_true⟩
  unfold Sound at hsound
  unfold CacheReaders.step at hstep
  -- one case for each operation of the cache
  cases hcall : action.call with
  | getMetadata key =>
    rw [hcall] at hstep hsound hkept
    cases hstep
    exact hkept rfl (wp_final (reads_getMetadata hs hsound key)).stays
  | getData key =>
    rw [hcall] at hstep hsound hkept
    cases hstep
    exact hkept rfl (wp_final (reads_getData hs hsound key)).stays
  | get key =>
    rw [hcall] at hstep hsound hkept
    cases hstep
    exact hkept rfl (wp_final (reads_get hs hsound key)).stays
  | close reader =>
    rw [hcall] at hstep hsound hremoved
    dsimp only at hstep
    -- a stream that is not open is released by nobody
    by_cases hmem : reader ∈ s.readers
    · rw [if_pos hmem] at hstep
      cases hstep
      exact hremoved (wp_final (settles_releaseData hs hsound reader)) fun _ _ => rfl
    · rw [if_neg hmem] at hstep
      cases hstep
  | putMetadata key httpCacheMetadata =>
    rw [hcall] at hstep hsound hkept
    cases hstep
    exact hkept rfl (wp_final (reads_putMetadata hs hsound.2 hsound.1)).stays
  | put key httpCacheMetadata path =>
    rw [hcall] at hstep hsound hremoved
    cases hstep
    exact hremoved (wp_final (puts_put hs hsound)).settles fun _ _ => rfl
  | remove key =>
    rw [hcall] at hstep hsound hremoved
    cases hstep
    exact hremoved (wp_final (settles_remove hs hsound key)) fun _ _ => rfl
  | purge mayDeleteIfBusy =>
    rw [hcall] at hstep hsound hremoved
    cases hstep
    exact hremoved (wp_final (settles_purge hs hsound mayDeleteIfBusy)) fun _ _ => rfl
  | createFile path content =>
    rw [hcall] at hstep hsound hremoved
    cases hstep
    exact hremoved (settles_createFile hs content hsound) fun _ _ => rfl

/-- The invariant of the runs. -/
def InSync (s : System) : Prop := Synced s.cache

/-- Each sound step keeps cache and disk in sync. -/
theorem step_inSync (s : System) (action : Action) (s' : System) (h : InSync s)
    (hsound : Sound s action) (hstep : step json s action = some s') : InSync s' :=
  (step_cases s action s' h hsound hstep).1

theorem InSync.leavesIntact {s : System} {action : Action} (h : InSync s)
    (hsound : Sound s action) : LeavesIntact json s action := by
  intro s' hstep hremoves key info info' hentry hentry' hserial
  have hsettles := (step_cases s action s' h hsound hstep).2 hremoves
  rcases hsettles.left key info' hentry' with ⟨old, hold, hstored⟩ | hnew
  · have hold : s.cache.entry key = some old := hold
    rw [hentry] at hold
    cases hold
    exact hstored
  · have hlt : info.serial < s.cache.nextSerial := h.serial_lt key info hentry
    have hnew : s.cache.nextSerial ≤ info'.serial := hnew
    omega

/-- What is in sync can be removed as a whole. -/
theorem InSync.removable {s : System} (h : InSync s) : Removable s := by
  intro key info hentry hzero nowAtEpoch
  have hs := h.start ⟨.remove key, nowAtEpoch, {}⟩
  have hentry : (CacheReaders.start s.cache ⟨.remove key, nowAtEpoch, {}⟩).entry key = some info :=
    hentry
  have hfaults : (CacheReaders.start s.cache ⟨.remove key, nowAtEpoch, {}⟩).disk.faults = {} := rfl
  revert hs hentry hfaults
  generalize CacheReaders.start s.cache ⟨.remove key, nowAtEpoch, {}⟩ = c
  intro hs hentry hfaults
  have hinit : c.cacheInitialized = true := by
    -- an entry is listed, so the cache was initialized
    cases hinit : c.cacheInitialized with
    | true => rfl
    | false =>
      rw [hs.uninitialized hinit key] at hentry
      cases hentry
  have hremoved : wp (HttpFileCache.remove key)
      (fun r t => r = true ∧ storedIn t key = (none, none, none)) (fun _ _ => False) c := by
    unfold HttpFileCache.remove
    rw [wp_tryCatch, wp_bind]
    refine wp_mono (wp_initializeCache hs.wf hs.emptyUntilInitialized) (fun _ t ht => ?_)
      fun e t ht => absurd ht.2.2.1 (not_databaseFails_of_faults_eq hfaults)
    have hsame : t = c := ht.2.2.1 hinit
    subst hsame
    have hhead : t.disk.faults.database.headD .none = .none := by rw [hfaults]; rfl
    -- nobody reads the entry
    have hidle : IsIdle t.lruCacheStrategy key := by
      intro i hi
      have hi : t.entry key = some i := hi
      rw [hentry] at hi
      cases hi
      exact hzero
    have hlisted : (t.entry key).isSome := by rw [hentry]; rfl
    -- so it is removed, and its row was there
    refine wp_mono (wp_removeInternal_idle hs.wf (filesWork_of_faults_eq hfaults) hidle)
      (fun r u hu => ?_) fun e u hu => absurd hhead hu.2.2
    obtain ⟨htu, hgone, -, hanswer⟩ := hu
    have hr : r = true := hanswer hhead hlisted ((hs.coherent key).symm.trans hlisted)
    refine ⟨hr, ?_⟩
    unfold storedIn
    rw [htu.cacheRootDir_eq]
    exact hgone hr
  unfold wp at hremoved
  rcases hrun : exec (HttpFileCache.remove key) c with ⟨r, t⟩
  rw [hrun] at hremoved
  cases r with
  | ok r =>
    obtain ⟨rfl, hgone⟩ := hremoved
    exact ⟨rfl, hgone⟩
  | error e => exact hremoved.elim

/-- A cache that has been initialized over a disk. -/
def initialized (cacheRootDir : String) (maxSize : UInt64) (disk : Disk) : System :=
  ⟨(exec initializeCache (construct cacheRootDir maxSize disk)).2, []⟩

/-- An initialised cache is in sync, if its rows fit. -/
theorem synced_initialized {cacheRootDir : String} {maxSize : UInt64} {disk : Disk}
    (hdir : cacheRootDir ≠ "") (hfaults : disk.faults = {}) (hfits : RowsFit maxSize disk.rows) :
    Synced (initialized cacheRootDir maxSize disk).cache := by
  have hloaded : wp initializeCache
      (fun _ t => Loading (RowsFit maxSize disk.rows) (construct cacheRootDir maxSize disk) [] t ∧
        t.cacheInitialized = true)
      (fun _ t => Loading (RowsFit maxSize disk.rows) (construct cacheRootDir maxSize disk) [] t ∧
        t.cacheInitialized = true) (construct cacheRootDir maxSize disk) :=
    wp_mono (wp_initializeCache_construct hfaults hdir) (fun _ _ h => h) fun _ _ h => h.elim
  obtain ⟨h, hinit⟩ := wp_final hloaded
  refine ⟨h.valid, h.exact_total hfits, fun k => ?_, fun hnot => ?_, ?_⟩
  · rw [Bool.eq_iff_iff]
    refine ⟨h.row_of_entry k, fun hrow => (h.complete hfits k hrow).resolve_right ?_⟩
    exact List.not_mem_nil
  · have hnot : (exec initializeCache (construct cacheRootDir maxSize disk)).2.cacheInitialized =
      false := hnot
    rw [hinit] at hnot
    cases hnot
  · show (exec initializeCache (construct cacheRootDir maxSize disk)).2.cacheRootDir ≠ ""
    rw [h.cacheRootDir_eq]
    exact hdir

instance (disk : Disk) : Decidable (ResetWorks disk) := inferInstanceAs (Decidable (_ → _))

instance (s : HttpFileCache) (key : String) (httpCacheMetadata : HttpCacheMetadata)
    (path : String) : Decidable (SoundPut s key httpCacheMetadata path) :=
  inferInstanceAs (Decidable (_ ∧ _))

instance (s : HttpFileCache) : (call : Call) → Decidable (SoundCall s call)
  | .getMetadata _ | .getData _ | .get _ => inferInstanceAs (Decidable (ResetWorks s.disk))
  | .putMetadata _ _ => inferInstanceAs (Decidable (_ ∧ _))
  | .close _ | .remove _ | .purge _ => inferInstanceAs (Decidable s.disk.FilesWork)
  | .put _ _ _ => inferInstanceAs (Decidable (SoundPut _ _ _ _))
  | .createFile _ _ => inferInstanceAs (Decidable (_ = false))

instance (s : System) (action : Action) : Decidable (Sound s action) :=
  inferInstanceAs (Decidable (SoundCall _ _))

/-- The database refuses a removal, and later a `put` finds the file system broken. -/
def refusedRun : List Action :=
  store "k" ++ [⟨.remove "k", 0, { database := [.fails] }⟩, ⟨.get "k", 0, {}⟩] ++
    [⟨.createFile "/temp/2" "def", 0, {}⟩,
      ⟨.put "l" { metadataOf "l" with responseBodySize := 3 } "/temp/2", 0, { file := [.fails] }⟩]

/-- The body file of an entry cannot be deleted; then the failure has gone. -/
def tornRun : List Action := store "k" ++ [⟨.remove "k", 0, { file := [.fails] }⟩]

end EasyHttp.StoreCoherence
