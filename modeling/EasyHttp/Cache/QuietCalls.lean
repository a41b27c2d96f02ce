import EasyHttp.Cache.ListOrder
import EasyHttp.Cache.PutRetrieval

/-!
# Calls that meet no failure

What each call of `HttpFileCache` does to the order of the list when nothing fails.

* `RowChanged`: the row of one key is written or gone, and nothing fails still;
* `Current`: the list follows the rows, all of which were used before now;
* `Stays`: the list still follows the rows after a call;
* `stays_getMetadata` … `stays_remove`: the calls, each with what it needs to be so.
-/

namespace EasyHttp.ListOrder

open Exec LruCacheByDataSizeStrategy LruOperations LruCapacity Recency HttpFileCache

variable {json : PocoJson} {disk d : Disk} {cacheRootDir key k : String} {it : ℕ}
  {info : HttpCacheInfo} {row : Row} {p : Stores} {s t u : HttpFileCache}
  {lru' : LruCacheByDataSizeStrategy HttpCacheInfo}

/-! ## The disk -/

/-- The row of the key is another, or gone. Nothing fails still. -/
structure RowChanged (key : String) (new : Option Row) (disk d : Disk) : Prop where
  row_eq : d.row = Function.update disk.row key new
  nowAtEpoch_eq : d.nowAtEpoch = disk.nowAtEpoch
  faults_eq : d.faults = {}

/-- The row of the key gets the time of now. -/
theorem wp_updateLastAccessedSec_quiet (hquiet : disk.faults = {})
    (hrow : disk.row key = some row) :
    wp (HttpCacheDatabase.updateLastAccessedSec key)
      (fun _ d => RowChanged key (some { row with lastAccessedAtEpoch := disk.nowAtEpoch }) disk d)
      (fun _ _ => False) disk := by
  unfold HttpCacheDatabase.updateLastAccessedSec
  rw [wp_bind]
  refine wp_mono (Disk.wp_databaseCall disk) (fun _ d hd => ?_) fun e d hd =>
    not_databaseFails_of_faults_eq hquiet hd.2.1
  have hsame : d = disk := eq_of_same hd.1 hquiet
  subst hsame
  have hfind : d.rows.find? key = some row := hrow
  rw [wp_bind, wp_getState, hfind]
  exact ⟨SortedMap.find?_set_eq _ _ _, rfl, hquiet⟩

/-- The callback succeeds, and the row is gone. -/
theorem wp_onRemove_quiet (hquiet : disk.faults = {}) (hrow : (disk.row key).isSome) :
    wp (onRemove cacheRootDir key) (fun ret d => ret = true ∧ RowChanged key none disk d)
      (fun _ _ => False) disk := by
  have hnext : disk.faults.database.headD .none = .none := by
    rw [hquiet]
    rfl
  refine wp_mono (wp_onRemove (filesWork_of_faults_eq hquiet) key) (fun ret d hd => ?_)
    fun e d hd => hd.2.2 hnext
  obtain ⟨hlater, hanswer, hgone⟩ := hd
  have htrue := hanswer hnext hrow
  subst htrue
  exact ⟨rfl, hgone.1, hlater.1, Disk.Later.faults_eq hlater hquiet⟩

/-! ## The list and the rows -/

/-- The list follows the rows, all of which were used before now, and nothing fails. -/
structure Current (lru : LruCacheByDataSizeStrategy HttpCacheInfo) (disk : Disk) : Prop
    extends Follows lru disk where
  faults_eq : disk.faults = {}
  later : ∀ k ∈ keysOf lru, accessedAt disk k < disk.nowAtEpoch.toInt

/-- Calls that leave the rows alone leave the list current. -/
theorem Current.changed {lru : LruCacheByDataSizeStrategy HttpCacheInfo}
    (h : Current lru disk) (hrows : d.rows = disk.rows) (hnow : d.nowAtEpoch = disk.nowAtEpoch)
    (hfaults : d.faults = {}) : Current lru d := by
  refine ⟨follows_of_rows h.toFollows hrows, hfaults, ?_⟩
  rw [accessedAt_of_rows hrows, hnow]
  exact h.later

/-- An entry that was looked up, and its row that was written now. -/
theorem Current.written {lru : LruCacheByDataSizeStrategy HttpCacheInfo} (h : Current lru disk)
    (hentry : lru.entry key = some info) (hmoved : Moved key lru lru')
    (hsize : row.responseBodySize = info.dataSize)
    (hnow : row.lastAccessedAtEpoch = disk.nowAtEpoch) (hd : RowChanged key (some row) disk d) :
    Follows lru' d := by
  have hsizes : sizeAt lru' = Function.update (sizeAt lru) key (some row.responseBodySize) := by
    rw [hmoved.sizeAt_eq, hsize, ← sizeAt_of_entry hentry, Function.update_eq_self]
  exact follows_written h.toFollows h.later hmoved.keys_eq hsizes hmoved.maxSize_eq
    (hmoved.bounded h.bounded) hd.row_eq hnow

/-- A moved list is consistent. -/
theorem Moved.wf {lru : LruCacheByDataSizeStrategy HttpCacheInfo} (h : Moved key lru lru')
    (hbounded : Bounded lru.maxSize lru) : lru'.Wf := (h.bounded hbounded).wf

/-- An entry that is gone, whether it was moved before or not. -/
theorem Current.dropped {lru : LruCacheByDataSizeStrategy HttpCacheInfo} (h : Current lru disk)
    (hmoved : lru' = lru ∨ Moved key lru lru') (hd : RowChanged key none disk d) :
    Current (lru'.drop key) d := by
  have hbounded : Bounded lru'.maxSize lru' := by
    rcases hmoved with rfl | hmoved
    · exact h.bounded
    · exact hmoved.bounded h.bounded
  have hmax : lru'.maxSize = lru.maxSize := by
    rcases hmoved with rfl | hmoved
    · rfl
    · exact hmoved.maxSize_eq
  have hkeys : keysOf (lru'.drop key) = (keysOf lru).filter (· ≠ key) := by
    rw [keysOf_drop hbounded.wf]
    rcases hmoved with rfl | hmoved
    · rfl
    · rw [hmoved.keys_eq, filter_touch]
  have hsizes : sizeAt (lru'.drop key) = Function.update (sizeAt lru) key none := by
    rw [sizeAt_drop hbounded.wf]
    rcases hmoved with rfl | hmoved
    · rfl
    · rw [hmoved.sizeAt_eq]
  have hdropped : Bounded (lru'.drop key).maxSize (lru'.drop key) := by
    rw [maxSize_drop]
    exact hbounded.drop
  refine ⟨follows_dropped h.toFollows hkeys hsizes ((maxSize_drop key).trans hmax) hdropped
    hd.row_eq, hd.faults_eq, fun k hk => ?_⟩
  rw [hkeys] at hk
  have hne : k ≠ key := by simpa using List.of_mem_filter hk
  rw [hd.nowAtEpoch_eq, accessedAt_update hd.row_eq hne]
  exact h.later k (List.mem_of_mem_filter hk)

/-- The removal of an entry by the base class. -/
theorem wp_remove_quiet (hfind : p.1.find key = some (it, info)) (hquiet : p.2.faults = {})
    (hrow : (p.2.row key).isSome) :
    wp (LruCacheByDataSizeStrategy.remove (listener cacheRootDir) key)
      (fun ret q => ret = true ∧ q.1 = p.1.drop key ∧ RowChanged key none p.2 q.2)
      (fun _ _ => False) p := by
  rw [wp_remove hfind]
  refine wp_mono (wp_onRemove_quiet hquiet hrow) (fun ret d hd => ?_) fun _ _ he => he
  obtain ⟨rfl, hd⟩ := hd
  exact ⟨rfl, rfl, hd⟩

/-! ## Making space -/

/-- The cache agrees to the removal of keys that have their rows. -/
theorem agrees_of_rows {keys : List String} (hnodup : keys.Nodup)
    (hrows : ∀ k ∈ keys, (disk.row k).isSome) (hquiet : disk.faults = {}) :
    Agrees (listener cacheRootDir) keys disk := by
  induction keys generalizing disk with
  | nil => trivial
  | cons key keys ih =>
    obtain ⟨hfresh, hrest⟩ := List.nodup_cons.mp hnodup
    have hrun : wp ((listener cacheRootDir).onRemove key)
        (fun ret d => ret = true ∧ RowChanged key none disk d) (fun _ _ => False) disk :=
      wp_onRemove_quiet hquiet (hrows key List.mem_cons_self)
    unfold Agrees
    unfold wp at hrun
    rcases hexec : exec ((listener cacheRootDir).onRemove key) disk with ⟨r, d⟩
    rw [hexec] at hrun
    cases r with
    | error e => trivial
    | ok ret =>
      obtain ⟨rfl, hd⟩ := hrun
      refine ⟨rfl, ih hrest (fun k hk => ?_) hd.faults_eq⟩
      have hne : k ≠ key := fun heq => hfresh (heq ▸ hk)
      rw [hd.row_eq, Function.update_of_ne hne]
      exact hrows k (List.mem_cons_of_mem key hk)

/-- Everything that is not read can be removed to make room. -/
theorem roomFor_of_current (h : Current p.1 p.2) {requestSize : UInt64}
    (hfits : p.1.totalSize.toNat + requestSize.toNat < 2 ^ 64) :
    RoomFor (fun info => info.dataRefCount = 0) (listener cacheRootDir) p.1 p.2 requestSize "" := by
  refine ⟨hfits, ?_⟩
  unfold victims
  by_cases hspace : p.1.totalSize + requestSize ≤ p.1.maxSize
  · rw [if_pos hspace]
    trivial
  rw [if_neg hspace]
  have hsum : sizes p.1.lruList.values.reverse = p.1.totalSize.toNat := by
    rw [sizes_perm p.1.lruList.values.reverse_perm, h.bounded.total]
  have hzero : (0 : UInt64).toNat = 0 := rfl
  have htotal_lt := p.1.totalSize.toNat_lt
  cases hkeys : removeLruDataLoop (fun info : HttpCacheInfo => decide (info.dataRefCount = 0))
      (p.1.totalSize + requestSize - p.1.maxSize) p.1.lruList.values.reverse 0 [] with
  | none => trivial
  | some keys =>
    obtain ⟨taken, hsub, hremovable, hall, -⟩ :=
      exists_of_removeLruDataLoop hkeys (by rw [hsum, hzero]; omega)
    rw [List.append_nil] at hall
    subst hall
    refine agrees_of_rows ((nodup_taken (s := p) h.bounded hsub).sublist List.filter_sublist)
      (fun k hk => ?_) h.faults_eq
    obtain ⟨info, hentry, -⟩ :=
      listed_of_taken (s := p) h.bounded hsub hremovable (List.mem_of_mem_filter hk)
    obtain ⟨row, hrow, -⟩ := h.exists_row hentry
    rw [hrow]
    rfl

/-- The cache after some entries were evicted. -/
structure Evicted (s t : HttpFileCache) : Prop where
  current : Current t.lruCacheStrategy t.disk
  initialized : t.cacheInitialized = s.cacheInitialized
  cacheRootDir_eq : t.cacheRootDir = s.cacheRootDir
  maxSize_eq : t.lruCacheStrategy.maxSize = s.lruCacheStrategy.maxSize
  entry_of_entry : ∀ k info, t.entry k = some info → s.entry k = some info

/-- Nothing needs to be evicted. -/
theorem evicted_refl (h : Current s.lruCacheStrategy s.disk) : Evicted s s :=
  ⟨h, rfl, rfl, rfl, fun _ _ hentry => hentry⟩

/-- What `makeSpace` leaves is in order, and there is room if it says so. -/
theorem wp_makeSpace_quiet (h : Current s.lruCacheStrategy s.disk) {requestSize : UInt64}
    (hfits : s.lruCacheStrategy.totalSize.toNat + requestSize.toNat < 2 ^ 64) :
    wp (lru (HttpLruCacheStrategy.makeSpace · requestSize))
      (fun ret t => Evicted s t ∧ (ret = true →
        t.lruCacheStrategy.totalSize.toNat + requestSize.toNat ≤ t.lruCacheStrategy.maxSize.toNat))
      (fun _ _ => False) s := by
  rw [wp_lru]
  have heach : wp (HttpLruCacheStrategy.makeSpace (listener s.cacheRootDir) requestSize)
      (fun _ q => Evicted s (s.withStores q)) (fun _ _ => False) s.stores := by
    -- the loop over the chosen keys keeps the list and the rows in step
    refine wp_makeSpaceFor_each (s := s.stores) h.bounded.wf requestSize
      (fun key info q hentry hidle _ hq => ?_) (evicted_refl h)
    have hq_current : Current q.1 q.2 := hq.current
    have hq_idle : IsIdle q.1 key := by
      intro listed hlisted
      have hsame : s.entry key = some listed := hq.entry_of_entry key listed hlisted
      have hentry : s.entry key = some info := hentry
      rw [hentry] at hsame
      cases hsame
      exact hidle
    unfold wp
    rw [exec_remove_idle hq_idle]
    show wp (LruCacheByDataSizeStrategy.remove (listener s.cacheRootDir) key) _ _ q
    -- the entry may have gone with an earlier key
    cases hfind : q.1.find key with
    | none =>
      unfold LruCacheByDataSizeStrategy.remove
      rw [wp_bind, wp_getState, hfind]
      exact hq
    | some found =>
      obtain ⟨it, listed⟩ := found
      obtain ⟨row, hrow, -⟩ := hq_current.exists_row (entry_of_find hfind)
      have hsome : (q.2.row key).isSome := by
        rw [hrow]
        rfl
      -- without failures the entry goes with its row
      refine wp_mono (wp_remove_quiet hfind hq_current.faults_eq hsome) (fun _ r hr => ?_)
        fun _ _ he => he
      obtain ⟨-, hlist, hd⟩ := hr
      have hdropped : Current r.1 r.2 := by
        rw [hlist]
        exact hq_current.dropped (.inl rfl) hd
      have hmax : r.1.maxSize = q.1.maxSize := by
        rw [hlist]
        exact maxSize_drop key
      refine ⟨hdropped, rfl, rfl, hmax.trans hq.maxSize_eq, fun k i hi => ?_⟩
      have hi : r.1.entry k = some i := hi
      rw [hlist, hq_current.bounded.wf.entry_drop] at hi
      -- entries of other keys are as they were
      by_cases hk : k = key
      · subst hk
        rw [Function.update_self] at hi
        cases hi
      · rw [Function.update_of_ne hk] at hi
        exact hq.entry_of_entry k i hi
  have hroom : wp (HttpLruCacheStrategy.makeSpace (listener s.cacheRootDir) requestSize)
      (fun ret q => Bounded s.lruCacheStrategy.maxSize q.1 ∧
        (ret = true → q.1.totalSize.toNat + requestSize.toNat ≤ q.1.maxSize.toNat))
      (fun _ _ => True) s.stores :=
    wp_mono (wp_makeSpace (s := s.stores) (evicts_http (listener s.cacheRootDir)) h.bounded
      (roomFor_of_current h hfits)) (fun _ _ hq => hq) fun _ _ _ => trivial
  exact wp_mono (wp_and heach hroom) (fun _ _ hq => ⟨hq.1, hq.2.2⟩) fun _ _ he => he.1

/-! ## Looking an entry up -/

/-- The entry of the key is the one used last. -/
def IsFirst (s : HttpFileCache) (key : String) : Prop :=
  (keysOf s.lruCacheStrategy).head? = some key

/-- The stored headers of the key can be read. -/
def IsReadable (json : PocoJson) (key : String) (disk : Disk) : Prop :=
  ∀ row ∈ disk.row key, (row.getMetadata json key).isOk = true

/-- The cache before a call. -/
structure Usable (s : HttpFileCache) : Prop where
  started : s.Started
  follows : Follows s.lruCacheStrategy s.disk
  later : ∀ k ∈ keysOf s.lruCacheStrategy, accessedAt s.disk k < s.disk.nowAtEpoch.toInt

/-- After a call the list still follows the rows. -/
structure Stays (s t : HttpFileCache) : Prop where
  initialized : t.cacheInitialized = s.cacheInitialized
  cacheRootDir_eq : t.cacheRootDir = s.cacheRootDir
  follows : Follows t.lruCacheStrategy t.disk

/-- Before the call the list follows the rows. -/
theorem Usable.stays (h : Usable s) : Stays s s := ⟨rfl, rfl, h.follows⟩

/-- A usable cache on a disk without failures is current. -/
theorem Usable.current (h : Usable s) (hquiet : s.disk.faults = {}) :
    Current s.lruCacheStrategy s.disk := ⟨h.follows, hquiet, h.later⟩

theorem Usable.moved (h : Usable s) (hfind : s.lruCacheStrategy.find key = some (it, info)) :
    Moved key s.lruCacheStrategy (s.lruCacheStrategy.touch key it info) :=
  moved_touch h.follows.bounded.wf hfind

/-- The entry used last is used again, and nothing else is changed. -/
theorem Usable.used (h : Usable s) (hmoved : Moved key s.lruCacheStrategy lru')
    (hfirst : IsFirst s key) : Stays s { s with lruCacheStrategy := lru' } :=
  ⟨rfl, rfl, follows_used h.follows hmoved hfirst⟩

/-- An entry is used, and its row is written. -/
theorem Usable.written (h : Usable s) (hquiet : s.disk.faults = {})
    (hentry : s.entry key = some info) (hmoved : Moved key s.lruCacheStrategy lru')
    (hsize : row.responseBodySize = info.dataSize)
    (hnow : row.lastAccessedAtEpoch = s.disk.nowAtEpoch)
    (hd : RowChanged key (some row) s.disk d) :
    Stays s { s with lruCacheStrategy := lru', disk := d } :=
  ⟨rfl, rfl, (h.current hquiet).written hentry hmoved hsize hnow hd⟩

/-- A lookup by a call that goes on with what it finds. -/
theorem wp_lru_get {α : Type} {f : Option HttpCacheInfo → CacheExec α}
    {Q : α → HttpFileCache → Prop} {E : CacheException → HttpFileCache → Prop}
    (hnone : s.entry key = none → wp (f none) Q E s)
    (hsome : ∀ it info, s.lruCacheStrategy.find key = some (it, info) →
      wp (f (some info)) Q E
        { s with lruCacheStrategy := s.lruCacheStrategy.touch key it info }) :
    wp (lru (HttpLruCacheStrategy.get · key) >>= f) Q E s := by
  cases hfind : s.lruCacheStrategy.find key with
  | none =>
    have hget : exec (lru (HttpLruCacheStrategy.get · key)) s = (.ok none, s) := by
      rw [exec_lru, onLru, exec_zoom, HttpLruCacheStrategy.exec_get_none hfind]
    unfold wp
    rw [exec_bind_ok hget]
    exact hnone (entry_eq_none_iff.mpr hfind)
  | some found =>
    obtain ⟨it, info⟩ := found
    unfold wp
    rw [exec_bind_ok (exec_get_of_find hfind)]
    exact hsome it info hfind

/-! ## The readers -/

/-- The row of an entry that was looked up is read, and written now; or its headers cannot be
read. -/
theorem Usable.wp_readMetadata (h : Usable s) (hquiet : s.disk.faults = {})
    (hfind : s.lruCacheStrategy.find key = some (it, info))
    (hread : IsReadable json key s.disk ∨ IsFirst s key) :
    wp (readMetadata json key)
      (fun metadata t => metadata.isSome ∧ ∃ row d, row.responseBodySize = info.dataSize ∧
        row.lastAccessedAtEpoch = s.disk.nowAtEpoch ∧ RowChanged key (some row) s.disk d ∧
        t = { s with lruCacheStrategy := s.lruCacheStrategy.touch key it info, disk := d })
      (fun e t => (∃ e', e = .http e') ∧ Stays s t)
      { s with lruCacheStrategy := s.lruCacheStrategy.touch key it info } := by
  obtain ⟨row, hrow, hsize⟩ := h.follows.exists_row (entry_of_find hfind)
  unfold readMetadata
  rw [wp_bind, wp_onDisk]
  refine wp_mono (wp_getMetadata_quiet hquiet hrow) (fun metadata d hd => ?_) fun e d hd => ?_
  · obtain ⟨rfl, m, rfl, -⟩ := hd
    show wp (onDisk (HttpCacheDatabase.updateLastAccessedSec key) >>= _) _ _ _
    rw [wp_bind, wp_onDisk]
    refine wp_mono (wp_updateLastAccessedSec_quiet hquiet hrow) (fun _ d hd => ?_)
      fun _ _ he => he.elim
    exact ⟨rfl, { row with lastAccessedAtEpoch := s.disk.nowAtEpoch }, d, hsize, rfl, hd, rfl⟩
  · obtain ⟨rfl, e', rfl, hfails⟩ := hd
    refine ⟨⟨e', rfl⟩, h.used (h.moved hfind) (hread.resolve_left fun hreadable => ?_)⟩
    have htrue := hreadable row hrow
    rw [hfails] at htrue
    cases htrue

/-- After metadata is read the list follows the rows, if the entry is not marked and its row can be
read, or the key stands first already. -/
theorem stays_getMetadata (h : Usable s) (hcond : ∀ info ∈ s.entry key, s.disk.faults = {} ∧
      (info.reservedRemove = false ∧ IsReadable json key s.disk ∨ IsFirst s key)) :
    wp (getMetadata json key) (fun _ t => Stays s t) (fun _ t => Stays s t) s := by
  unfold getMetadata
  rw [wp_tryCatch, wp_started h.started]
  refine wp_lru_get (fun _ => h.stays) fun it info hfind => ?_
  obtain ⟨hquiet, hcond⟩ := hcond info (entry_of_find hfind)
  show wp (if info.reservedRemove then pure none else readMetadata json key) _ _ _
  cases hreserved : info.reservedRemove with
  | true =>
    rw [hreserved] at hcond
    exact h.used (h.moved hfind) (hcond.resolve_left fun hread => nomatch hread.1)
  | false =>
    refine wp_mono (h.wp_readMetadata hquiet hfind (hcond.imp_left And.right))
      (fun metadata t ht => ?_) fun e t ht => ?_
    · obtain ⟨-, row, d, hsize, hnow, hd, rfl⟩ := ht
      exact h.written hquiet (entry_of_find hfind) (h.moved hfind) hsize hnow hd
    · obtain ⟨⟨e', rfl⟩, ht⟩ := ht
      exact ht

/-- The end of a reader: the entry is pushed to the top again, with a reader more. -/
theorem wp_addReader_moved (hwf : s.lruCacheStrategy.Wf) (hentry : s.entry key = some info)
    (hreserved : info.reservedRemove = false) (content : String) :
    wp (addReader key info content)
      (fun stream t => stream = some { content := content, serial := info.serial } ∧
        ∃ lru', Moved key s.lruCacheStrategy lru' ∧ t = { s with lruCacheStrategy := lru' })
      (fun _ _ => False) s := by
  obtain ⟨it, hfind⟩ := find_of_entry hentry
  unfold wp
  rw [exec_addReader hfind hreserved content]
  have hkey : info.addDataRef.key = key := (hwf.find_eq_some_iff.mp hfind).2
  exact ⟨rfl, _, moved_push hwf hentry hkey rfl, rfl⟩

/-- The entry in the list after it was looked up. -/
theorem Usable.entry_touch (h : Usable s) (hfind : s.lruCacheStrategy.find key = some (it, info)) :
    (s.lruCacheStrategy.touch key it info).entry key = some info := by
  rw [h.follows.bounded.wf.entry_touch hfind]
  exact entry_of_find hfind

/-- After `getData` it does if the key stands first already. -/
theorem stays_getData (h : Usable s)
    (hcond : ∀ info ∈ s.entry key, s.disk.faults = {} ∧ IsFirst s key) :
    wp (getData key) (fun _ t => Stays s t) (fun _ t => Stays s t) s := by
  unfold getData
  rw [wp_tryCatch, wp_started h.started]
  refine wp_lru_get (fun _ => h.stays) fun it info hfind => ?_
  obtain ⟨hquiet, hfirst⟩ := hcond info (entry_of_find hfind)
  have hmoved := h.moved hfind
  show wp (if info.reservedRemove then pure none else _) _ _ _
  cases hreserved : info.reservedRemove with
  | true => exact h.used hmoved hfirst
  | false =>
    show wp (createStreamFromCache key >>= _) _ _ _
    rw [wp_bind]
    refine wp_mono (wp_createStreamFromCache_quiet (by exact hquiet) key) (fun found t ht => ?_)
      fun _ _ he => he.elim
    obtain ⟨-, rfl⟩ := ht
    cases found with
    | none => exact h.used hmoved hfirst
    | some content =>
      refine wp_mono (wp_addReader_moved (hmoved.wf h.follows.bounded)
        (by exact h.entry_touch hfind) hreserved content) (fun _ t ht => ?_) fun _ _ he => he.elim
      obtain ⟨-, lru', hpushed, rfl⟩ := ht
      exact h.used (hmoved.trans hpushed) hfirst

/-- `get` is like reading metadata here. -/
theorem stays_get (h : Usable s) (hcond : ∀ info ∈ s.entry key, s.disk.faults = {} ∧
      (info.reservedRemove = false ∧ IsReadable json key s.disk ∨ IsFirst s key)) :
    wp (get json key) (fun _ t => Stays s t) (fun _ t => Stays s t) s := by
  unfold HttpFileCache.get
  rw [wp_tryCatch, wp_started h.started]
  refine wp_lru_get (fun _ => h.stays) fun it info hfind => ?_
  obtain ⟨hquiet, hcond⟩ := hcond info (entry_of_find hfind)
  have hmoved := h.moved hfind
  show wp (if info.reservedRemove then pure none else _) _ _ _
  cases hreserved : info.reservedRemove with
  | true =>
    rw [hreserved] at hcond
    exact h.used hmoved (hcond.resolve_left fun hread => nomatch hread.1)
  | false =>
    show wp (readMetadata json key >>= _) _ _ _
    rw [wp_bind]
    refine wp_mono (h.wp_readMetadata hquiet hfind (hcond.imp_left And.right))
      (fun metadata t ht => ?_) fun e t ht => ?_
    · obtain ⟨hsome, row, d, hsize, hnow, hd, rfl⟩ := ht
      obtain ⟨metadata, rfl⟩ := Option.isSome_iff_exists.mp hsome
      have hentry : s.entry key = some info := entry_of_find hfind
      show wp (createStreamFromCache key >>= _) _ _ _
      rw [wp_bind]
      refine wp_mono (wp_createStreamFromCache_quiet (by exact hd.faults_eq) key)
        (fun found t ht => ?_) fun _ _ he => he.elim
      obtain ⟨-, rfl⟩ := ht
      cases found with
      | none => exact h.written hquiet hentry hmoved hsize hnow hd
      | some content =>
        show wp (addReader key info content >>= _) _ _ _
        rw [wp_bind]
        refine wp_mono (wp_addReader_moved (hmoved.wf h.follows.bounded)
          (by exact h.entry_touch hfind) hreserved content) (fun _ t ht => ?_)
          fun _ _ he => he.elim
        obtain ⟨-, lru', hpushed, rfl⟩ := ht
        exact h.written hquiet hentry (hmoved.trans hpushed) hsize hnow hd
    · obtain ⟨⟨e', rfl⟩, ht⟩ := ht
      exact ht

/-! ## A reader less, new metadata, and removals -/

/-- The removal of an entry that may have been moved before. -/
theorem Usable.wp_drop (h : Usable s) (hquiet : s.disk.faults = {})
    (hentry : s.entry key = some info)
    (hmoved : lru' = s.lruCacheStrategy ∨ Moved key s.lruCacheStrategy lru')
    (hlisted : (lru'.entry key).isSome) :
    wp (lru (LruCacheByDataSizeStrategy.remove · key))
      (fun ret t => ret = true ∧ Stays s t ∧ t.entry key = none ∧
        Current t.lruCacheStrategy t.disk ∧
        t.lruCacheStrategy.totalSize.toNat ≤ lru'.totalSize.toNat) (fun _ _ => False)
      { s with lruCacheStrategy := lru' } := by
  obtain ⟨row, hrow, -⟩ := h.follows.exists_row hentry
  obtain ⟨listed, hlisted⟩ := Option.isSome_iff_exists.mp hlisted
  obtain ⟨it, hfind⟩ := find_of_entry hlisted
  have hbounded : Bounded lru'.maxSize lru' := by
    rcases hmoved with rfl | hmoved
    · exact h.follows.bounded
    · exact hmoved.bounded h.follows.bounded
  have hsome : (s.disk.row key).isSome := by
    rw [hrow]
    rfl
  rw [wp_lru]
  refine wp_mono (wp_remove_quiet (p := (lru', s.disk)) hfind hquiet hsome) (fun ret q hq => ?_)
    fun _ _ he => he
  obtain ⟨htrue, hlist, hd⟩ := hq
  have hlist : q.1 = lru'.drop key := hlist
  have hcurrent : Current q.1 q.2 := by
    rw [hlist]
    exact (h.current hquiet).dropped hmoved hd
  have hless := hbounded.toExact.toNat_drop key
  refine ⟨htrue, ⟨rfl, rfl, hcurrent.toFollows⟩, ?_, hcurrent, ?_⟩
  · show q.1.entry key = none
    rw [hlist, hbounded.wf.entry_drop, Function.update_self]
  · show q.1.totalSize.toNat ≤ _
    rw [hlist]
    omega

theorem releaseDataRef_of_ne (hcount : info.dataRefCount ≠ 0) :
    info.releaseDataRef = { info with dataRefCount := info.dataRefCount - 1 } := by
  unfold HttpCacheInfo.releaseDataRef
  rw [if_neg hcount]

/-- After a release it does if the entry goes with it, or the key stands first already. -/
theorem stays_releaseData (h : Usable s) (hcond : ∀ info ∈ s.entry key, s.disk.faults = {} ∧
      (info.dataRefCount = 1 ∧ info.reservedRemove = true ∨ IsFirst s key)) :
    wp (releaseData key) (fun _ t => Stays s t) (fun _ t => Stays s t) s := by
  unfold releaseData
  refine wp_lru_get (fun _ => h.stays) fun it info hfind => ?_
  have hentry : s.entry key = some info := entry_of_find hfind
  obtain ⟨hquiet, hcond⟩ := hcond info hentry
  have hmoved := h.moved hfind
  have hwf := hmoved.wf h.follows.bounded
  have htouched := h.entry_touch hfind
  by_cases hcount : info.dataRefCount = 0
  · simp only [hcount, if_true]
    refine h.used hmoved (hcond.resolve_left fun hlast => ?_)
    rw [hcount] at hlast
    exact absurd hlast.1 (by decide)
  · simp only [hcount, if_false]
    have hreleased := releaseDataRef_of_ne hcount
    have hkey : info.releaseDataRef.key = key := by
      rw [hreleased]
      exact (h.follows.bounded.wf.find_eq_some_iff.mp hfind).2
    have hsize : info.releaseDataRef.dataSize = info.dataSize := by rw [hreleased]
    have hpushed := hmoved.trans (moved_push hwf htouched hkey hsize)
    show wp (Exec.tryCatch _ _) _ _ _
    rw [wp_tryCatch, wp_bind]
    refine wp_update_listed (by exact htouched) hsize (fun _ _ => ?_) fun hother => ?_
    · have hlisted : (((s.lruCacheStrategy.touch key it info).push key
          info.releaseDataRef).entry key).isSome := by
        rw [hwf.entry_push hkey, Function.update_self]
        rfl
      exact wp_mono (h.wp_drop hquiet hentry (.inr hpushed) hlisted) (fun _ _ ht => ht.2.1)
        fun _ _ he => he.elim
    · refine h.used hpushed (hcond.resolve_left fun hlast => hother ?_)
      rw [hreleased]
      refine ⟨?_, hlast.2⟩
      show info.dataRefCount - 1 = 0
      rw [hlast.1]
      rfl

/-- After metadata is written it does if the entry takes it, or the key stands first already. -/
theorem stays_putMetadata {httpCacheMetadata : HttpCacheMetadata} (h : Usable s)
    (hcond : ∀ info ∈ s.entry key, s.disk.faults = {} ∧ (isWritable info = true ∧
      httpCacheMetadata.key = key ∧ httpCacheMetadata.responseBodySize = info.dataSize ∨
      isWritable info = false ∧ IsFirst s key)) :
    wp (putMetadata json key httpCacheMetadata) (fun _ t => Stays s t) (fun _ t => Stays s t)
      s := by
  unfold putMetadata
  rw [wp_tryCatch, wp_started h.started]
  refine wp_lru_get (fun _ => h.stays) fun it info hfind => ?_
  have hentry : s.entry key = some info := entry_of_find hfind
  obtain ⟨hquiet, hcond⟩ := hcond info hentry
  show wp (if !isWritable info then pure false else _) _ _ _
  rcases hcond with ⟨hwritable, rfl, hsize⟩ | ⟨hnot, hfirst⟩
  · rw [hwritable]
    show wp (onDisk (HttpCacheDatabase.updateMetadata json httpCacheMetadata) >>= _) _ _ _
    rw [wp_bind, wp_onDisk]
    refine wp_mono (wp_updateMetadata s.disk httpCacheMetadata) (fun _ d hd => ?_) fun e d hd =>
      (not_databaseFails_of_faults_eq hquiet hd.2).elim
    exact h.written hquiet hentry (h.moved hfind) hsize rfl
      ⟨hd.2.2, hd.1.1, Disk.Later.faults_eq hd.1 hquiet⟩
  · rw [hnot]
    exact h.used (h.moved hfind) hfirst

/-- The removal of an entry that nobody reads is that of the base class. -/
theorem wp_removeInternal_base {Q : Bool → HttpFileCache → Prop}
    {E : CacheException → HttpFileCache → Prop} (hidle : IsIdle s.lruCacheStrategy key)
    (h : wp (lru (LruCacheByDataSizeStrategy.remove · key)) Q E s) :
    wp (removeInternal key) Q E s := by
  have hrun : exec (removeInternal key) s =
      exec (lru (LruCacheByDataSizeStrategy.remove · key)) s := by
    unfold removeInternal
    rw [exec_lru, exec_lru, onLru, onLru, exec_zoom, exec_zoom, exec_remove_idle hidle]
  unfold wp at h ⊢
  rw [hrun]
  exact h

theorem isIdle_of_entry (hentry : s.lruCacheStrategy.entry key = some info)
    (hcount : info.dataRefCount = 0) : IsIdle s.lruCacheStrategy key := by
  intro listed hlisted
  rw [hentry] at hlisted
  cases hlisted
  exact hcount

/-- The removal of an entry that is being read: reserved now, or before. -/
theorem wp_removeInternal_reserves (hwf : s.lruCacheStrategy.Wf)
    (hfind : s.lruCacheStrategy.find key = some (it, info)) (hcount : info.dataRefCount ≠ 0) :
    wp (removeInternal key)
      (fun _ t => info.reservedRemove = true ∧ t = s ∨ info.reservedRemove = false ∧ ∃ lru',
        Moved key s.lruCacheStrategy lru' ∧ t = { s with lruCacheStrategy := lru' })
      (fun _ _ => False) s := by
  have hkey : ({ info with reservedRemove := true } : HttpCacheInfo).key = key :=
    (hwf.find_eq_some_iff.mp hfind).2
  refine wp_mono (wp_removeInternal_read hfind hcount) (fun _ t ht => ?_) fun _ _ he => he
  obtain ⟨-, hsame | ⟨hreserved, rfl⟩⟩ := ht
  · exact .inl hsame
  · exact .inr ⟨hreserved, _, moved_assign_push hwf hfind hkey rfl, rfl⟩

/-- After a removal it does if nobody reads the entry, it is marked already, or its key stands
first. -/
theorem stays_remove (h : Usable s) (hcond : ∀ info ∈ s.entry key, s.disk.faults = {} ∧
      (info.dataRefCount = 0 ∨ info.reservedRemove = true ∨ IsFirst s key)) :
    wp (remove key) (fun _ t => Stays s t) (fun _ t => Stays s t) s := by
  unfold HttpFileCache.remove
  rw [wp_tryCatch, wp_started h.started]
  cases hfind : s.lruCacheStrategy.find key with
  | none =>
    have hfind' : s.stores.1.find key = none := hfind
    unfold removeInternal
    rw [wp_lru]
    unfold HttpLruCacheStrategy.remove
    rw [wp_bind, wp_getState, hfind']
    exact h.stays
  | some found =>
    obtain ⟨it, info⟩ := found
    have hentry : s.entry key = some info := entry_of_find hfind
    obtain ⟨hquiet, hcond⟩ := hcond info hentry
    by_cases hcount : info.dataRefCount = 0
    · have hlisted : (s.lruCacheStrategy.entry key).isSome := by
        rw [entry_of_find hfind]
        rfl
      refine wp_removeInternal_base (isIdle_of_entry (entry_of_find hfind) hcount) ?_
      exact wp_mono (h.wp_drop hquiet hentry (.inl rfl) hlisted) (fun _ _ ht => ht.2.1)
        fun _ _ he => he.elim
    · refine wp_mono (wp_removeInternal_reserves h.follows.bounded.wf hfind hcount)
        (fun _ t ht => ?_) fun _ _ he => he.elim
      have hcond := hcond.resolve_left hcount
      rcases ht with ⟨-, rfl⟩ | ⟨hreserved, lru', hmoved, rfl⟩
      · exact h.stays
      · rw [hreserved] at hcond
        exact h.used hmoved (hcond.resolve_left Bool.false_ne_true)

/-! ## A new entry -/

/-- There is room for a new entry of the key. -/
structure HasSpace (key : String) (size : UInt64) (s : HttpFileCache) : Prop where
  current : Current s.lruCacheStrategy s.disk
  entry_eq : s.entry key = none
  room : s.lruCacheStrategy.totalSize.toNat + size.toNat ≤ s.lruCacheStrategy.maxSize.toNat

/-- After evictions it does. -/
theorem Evicted.stays (h : Evicted t u) (hst : Stays s t) : Stays s u :=
  ⟨h.initialized.trans hst.initialized, h.cacheRootDir_eq.trans hst.cacheRootDir_eq,
    h.current.toFollows⟩

/-- There is space afterwards, and only the oldest have left. -/
theorem wp_makeSpace_hasSpace {size : UInt64} (hst : Stays s t) (hentry : t.entry key = none)
    (h : Current t.lruCacheStrategy t.disk)
    (hfits : t.lruCacheStrategy.totalSize.toNat + size.toNat < 2 ^ 64) :
    wp (lru (HttpLruCacheStrategy.makeSpace · size))
      (fun ret u => Stays s u ∧ (ret = true → HasSpace key size u)) (fun _ _ => False) t := by
  refine wp_mono (wp_makeSpace_quiet h hfits) (fun ret u hu => ?_) fun _ _ he => he
  obtain ⟨hevicted, hroom⟩ := hu
  refine ⟨hevicted.stays hst, fun hret => ⟨hevicted.current, ?_, hroom hret⟩⟩
  cases hu : u.entry key with
  | none => rfl
  | some info =>
    have hold := hevicted.entry_of_entry key info hu
    rw [hentry] at hold
    cases hold

/-- So after the old entry of the key has been removed. -/
theorem wp_makeRoom_quiet {size : UInt64} (h : Usable s) (hquiet : s.disk.faults = {})
    (hfits : s.lruCacheStrategy.totalSize.toNat + size.toNat < 2 ^ 64)
    (hcond : ∀ info ∈ s.entry key, isWritable info = true ∨ IsFirst s key) :
    wp (makeRoom key size) (fun ret t => Stays s t ∧ (ret = true → HasSpace key size t))
      (fun _ _ => False) s := by
  unfold makeRoom
  rw [wp_tryCatch, wp_started h.started]
  refine wp_lru_get (fun hentry => ?_) fun it info hfind => ?_
  · exact wp_mono (wp_makeSpace_hasSpace h.stays hentry (h.current hquiet) hfits)
      (fun _ _ ht => ht) fun _ _ he => he.elim
  · have hentry : s.entry key = some info := entry_of_find hfind
    have hmoved := h.moved hfind
    have htouched := h.entry_touch hfind
    show wp (if !isWritable info then pure false else _) _ _ _
    cases hwritable : isWritable info with
    | false =>
      have hfirst := (hcond info hentry).resolve_left (by rw [hwritable]; exact Bool.false_ne_true)
      exact ⟨h.used hmoved hfirst, nofun⟩
    | true =>
      have hcount : info.dataRefCount = 0 := by
        unfold isWritable at hwritable
        rw [Bool.and_eq_true] at hwritable
        exact of_decide_eq_true hwritable.2
      have hlisted : ((s.lruCacheStrategy.touch key it info).entry key).isSome := by
        rw [htouched]
        rfl
      show wp (removeInternal key >>= _) _ _ _
      rw [wp_bind]
      refine wp_removeInternal_base (isIdle_of_entry (by exact htouched) hcount) ?_
      refine wp_mono (h.wp_drop hquiet hentry (.inr hmoved) hlisted) (fun _ t ht => ?_)
        fun _ _ he => he.elim
      obtain ⟨-, hst, hgone, hcurrent, hless⟩ := ht
      have htotal : (s.lruCacheStrategy.touch key it info).totalSize =
        s.lruCacheStrategy.totalSize := rfl
      rw [htotal] at hless
      exact wp_mono (wp_makeSpace_hasSpace hst hgone hcurrent (by omega))
        (fun _ _ hu => hu) fun _ _ he => he.elim

/-- The new entry is pushed to the top, when its row has been written now. -/
theorem HasSpace.wp_update {size : UInt64} (h : HasSpace key size t) (hkey : info.key = key)
    (hinfo : info.dataSize = size) (hreserved : info.reservedRemove = false)
    (hsize : row.responseBodySize = size)
    (hnow : row.lastAccessedAtEpoch = t.disk.nowAtEpoch)
    (hd : RowChanged key (some row) t.disk d) (hst : Stays s t) {serial : ℕ} :
    wp (lru (HttpLruCacheStrategy.update · key info)) (fun _ u => Stays s u) (fun _ _ => False)
      { t with disk := d, nextSerial := serial } := by
  subst hinfo
  refine wp_update_unlisted hreserved (wp_addOrUpdate_new (by exact h.entry_eq) ?_)
  refine wp_mono (wp_makeSpace_room (by exact h.room)) (fun _ u hu => ?_) fun _ _ he => he
  obtain ⟨rfl, rfl⟩ := hu
  have hwf := h.current.bounded.wf
  have hbounded : Bounded (t.lruCacheStrategy.push key info).maxSize
      (t.lruCacheStrategy.push key info) := by
    rw [maxSize_push]
    exact h.current.bounded.push hkey (Nat.le_add_right_of_le h.room)
  have hsizes : sizeAt (t.lruCacheStrategy.push key info) =
      Function.update (sizeAt t.lruCacheStrategy) key (some row.responseBodySize) := by
    rw [sizeAt_push hwf hkey, hsize]
  refine ⟨hst.initialized, hst.cacheRootDir_eq, ?_⟩
  exact follows_written h.current.toFollows h.current.later (keysOf_push hwf hkey) hsizes
    maxSize_push hbounded hd.row_eq hnow

/-- After a put it does. -/
theorem stays_put {httpCacheMetadata : HttpCacheMetadata} {path : String} (h : Usable s)
    (hquiet : s.disk.faults = {}) (hkey : httpCacheMetadata.key = key)
    (hfits : s.lruCacheStrategy.totalSize.toNat + httpCacheMetadata.responseBodySize.toNat < 2 ^ 64)
    (hcond : ∀ info ∈ s.entry key, isWritable info = true ∨ IsFirst s key) :
    wp (put json key httpCacheMetadata path) (fun _ t => Stays s t) (fun _ t => Stays s t) s := by
  unfold put
  rw [wp_bind]
  refine wp_mono (wp_makeRoom_quiet h hquiet hfits hcond) (fun ret t ht => ?_) fun _ _ he => he.elim
  obtain ⟨hst, hspace⟩ := ht
  -- without room nothing is stored
  cases ret with
  | false => exact hst
  | true =>
    have hspace := hspace rfl
    have hworks := filesWork_of_faults_eq hspace.current.faults_eq
    have hstarted : t.Started := by
      unfold Started
      rw [hst.initialized, hst.cacheRootDir_eq]
      exact h.started
    show wp (newHttpCacheInfo key _ >>= _) _ _ t
    unfold newHttpCacheInfo
    rw [wp_bind, wp_bind, wp_getState, wp_bind, wp_modifyState, wp_pure, wp_bind, wp_getState,
      wp_bind, wp_onDisk]
    refine wp_mono (wp_moveFile t.disk path _) (fun moved d hd => ?_) fun e d hd =>
      absurd hworks hd.2.1
    obtain ⟨hlater, hrows, -⟩ := hd
    have hfaults := Disk.Later.faults_eq hlater hspace.current.faults_eq
    have hcurrent : Current t.lruCacheStrategy d :=
      hspace.current.changed hrows hlater.1 hfaults
    have hst' : Stays s { t with disk := d } :=
      ⟨hst.initialized, hst.cacheRootDir_eq, hcurrent.toFollows⟩
    -- the body is in its place, or the put ends here
    cases moved with
    | false => exact ⟨hst.initialized, hst.cacheRootDir_eq, hcurrent.toFollows⟩
    | true =>
      show wp (storeMetadata json httpCacheMetadata _ >>= _) _ _ _
      unfold storeMetadata
      rw [wp_bind, wp_tryCatch, wp_started (by exact hstarted), wp_bind, wp_onDisk]
      refine wp_mono (wp_updateMetadata d httpCacheMetadata) (fun _ d' hd' => ?_) fun e d' hd' =>
        (not_databaseFails_of_faults_eq hfaults hd'.2).elim
      -- the row has the current second, and the entry comes to the top with it
      have hd'' : RowChanged key (some (httpCacheMetadata.toRow json d.nowAtEpoch)) d d' :=
        ⟨hkey ▸ hd'.2.2, hd'.1.1, Disk.Later.faults_eq hd'.1 hfaults⟩
      have hspace' : HasSpace key httpCacheMetadata.responseBodySize { t with disk := d } :=
        ⟨hcurrent, hspace.entry_eq, hspace.room⟩
      show wp (lru _ >>= _) _ _ _
      rw [wp_bind]
      exact wp_mono (hspace'.wp_update rfl rfl rfl rfl rfl hd'' hst') (fun _ _ hu => hu)
        fun _ _ he => he.elim

end EasyHttp.ListOrder
