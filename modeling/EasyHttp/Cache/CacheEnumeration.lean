import EasyHttp.Cache.HttpFileCacheSpecs

/-!
# The rows handed over when the cache is initialized

`enumerate` hands the rows over one after another, and each becomes an entry when there is room.

* `Loading`: what holds while some of the rows are still to come;
* `RowsFit`: the rows for which there is room;
* `wp_initializeCache_construct`: an initialization that meets no failure.
-/

namespace EasyHttp.HttpFileCache

open Exec LruCacheByDataSizeStrategy LruOperations LruCapacity

/-- Each row fits into the list, and their sizes can be added up. -/
def RowsFit (maxSize : UInt64) (rows : SortedMap String Row) : Prop :=
  (∀ e ∈ rows.entries, e.2.responseBodySize ≤ maxSize) ∧
    (rows.entries.map fun e => e.2.responseBodySize.toNat).sum < 2 ^ 64

instance (maxSize : UInt64) (rows : SortedMap String Row) : Decidable (RowsFit maxSize rows) :=
  inferInstanceAs (Decidable (_ ∧ _))

/-- The sizes of rows that are still to come. -/
def sizeOf (params : List (String × UInt64)) : ℕ := (params.map fun p => p.2.toNat).sum

/-- The rows of `params` are still to be handed over to the cache that was `c` at first; `fits`
tells that all of them fit. -/
structure Loading (fits : Prop) (c : HttpFileCache) (params : List (String × UInt64))
    (s : HttpFileCache) : Prop where
  valid : s.Valid
  faults_eq : s.disk.faults = {}
  nowAtEpoch_eq : s.disk.nowAtEpoch = c.disk.nowAtEpoch
  maxSize_eq : s.lruCacheStrategy.maxSize = c.lruCacheStrategy.maxSize
  cacheRootDir_eq : s.cacheRootDir = c.cacheRootDir
  idle : ∀ k info, s.entry k = some info → info.dataRefCount = 0 ∧ info.reservedRemove = false
  row_of_entry : ∀ k, (s.entry k).isSome → (s.disk.row k).isSome
  nodup : (params.map Prod.fst).Nodup
  pending : ∀ p ∈ params, s.entry p.1 = none ∧ (s.disk.row p.1).isSome
  exact_total : fits → Exact s.lruCacheStrategy
  total : fits → s.lruCacheStrategy.totalSize.toNat + sizeOf params < 2 ^ 64
  le_maxSize : fits → ∀ p ∈ params, p.2 ≤ c.lruCacheStrategy.maxSize
  complete : fits → ∀ k, (s.disk.row k).isSome → (s.entry k).isSome ∨ k ∈ params.map Prod.fst

variable {s t u c : HttpFileCache} {fits : Prop} {maxSize : UInt64} {cacheRootDir : String}
  {params : List (String × UInt64)} {key : String} {size : UInt64}
  {may : String → HttpCacheInfo → Prop}

/-- A disk that does not fail does not begin to. -/
theorem Disk.Later.faults_eq {disk disk' : Disk} (h : Disk.Later disk disk')
    (hfaults : disk.faults = {}) : disk'.faults = {} := by
  obtain ⟨-, hdatabase, hfile⟩ := h
  rw [hfaults] at hdatabase hfile
  rcases hd : disk'.faults with ⟨database, file⟩
  rw [hd] at hdatabase hfile
  have hdatabase : database = [] := List.suffix_nil.mp hdatabase
  have hfile : file = [] := List.suffix_nil.mp hfile
  rw [hdatabase, hfile]

/-- Where nothing fails the files do not. -/
theorem filesWork_of_faults_eq {disk : Disk} (h : disk.faults = {}) : disk.FilesWork := by
  intro fault hfault
  rw [h] at hfault
  cases hfault

/-- Nor is the database found corrupt. -/
theorem not_corruptFound_of_faults_eq {disk : Disk} {e : CacheException}
    (h : disk.faults = {}) : ¬CorruptFound disk e := by
  rintro ⟨-, hmem⟩
  rw [h] at hmem
  cases hmem

/-- Nor does it throw. -/
theorem not_databaseFails_of_faults_eq {disk : Disk} {e : CacheException}
    (h : disk.faults = {}) : ¬Disk.DatabaseFails disk e := by
  rintro (⟨-, hmem⟩ | ⟨-, hmem⟩)
  · rw [h] at hmem
    cases hmem
  · rw [h] at hmem
    cases hmem

/-- What is trimmed was listed, and goes with its row. -/
theorem Trimmed.row_of_none (h : Trimmed may s t) (hentry : s.entry key = none) :
    t.entry key = none ∧ t.disk.row key = s.disk.row key := by
  rcases h.trims.each key with hsame | ⟨-, info, hlisted, -⟩
  · have he : t.entry key = s.entry key := congrArg Prod.fst hsame
    exact ⟨he.trans hentry, congrArg (fun p => p.2.1) hsame⟩
  · have hlisted : s.entry key = some info := hlisted
    rw [hentry] at hlisted
    cases hlisted

/-- Entries may leave while rows are loaded. -/
theorem Loading.trimmed (h : Loading fits c params s)
    (ht : Trimmed may s t) : Loading fits c params t where
  valid := by
    refine ⟨ht.trims.wf, fun k info hentry => ?_⟩
    rw [ht.nextSerial_eq]
    exact h.valid.serial_lt k info (ht.trims.entry_of_entry hentry)
  faults_eq := Disk.Later.faults_eq ht.trims.later h.faults_eq
  nowAtEpoch_eq := ht.trims.later.1.trans h.nowAtEpoch_eq
  maxSize_eq := ht.trims.maxSize_eq.trans h.maxSize_eq
  cacheRootDir_eq := ht.cacheRootDir_eq.trans h.cacheRootDir_eq
  idle := fun k info hentry => h.idle k info (ht.trims.entry_of_entry hentry)
  row_of_entry := by
    intro k hk
    obtain ⟨info, hentry⟩ := Option.isSome_iff_exists.mp hk
    -- an entry that is still there has its row
    have hrow : t.disk.row k = s.disk.row k :=
      congrArg (fun p => p.2.1) (ht.trims.stored_eq hentry)
    have hold : s.entry k = some info := ht.trims.entry_of_entry hentry
    rw [hrow]
    exact h.row_of_entry k (by rw [hold]; rfl)
  nodup := h.nodup
  pending := by
    intro p hp
    obtain ⟨hentry, hrow⟩ := h.pending p hp
    obtain ⟨hentry', hrow'⟩ := ht.row_of_none hentry
    exact ⟨hentry', hrow' ▸ hrow⟩
  exact_total := fun hfits => (ht.trims.exact_total (h.exact_total hfits)).1
  total := by
    intro hfits
    -- the total is not more than it was
    have hle : t.lruCacheStrategy.totalSize.toNat ≤ s.lruCacheStrategy.totalSize.toNat :=
      (ht.trims.exact_total (h.exact_total hfits)).2
    have htotal := h.total hfits
    omega
  le_maxSize := h.le_maxSize
  complete := by
    intro hfits k hrow
    -- each row is as it was, or it has gone with its entry
    rcases ht.trims.each k with hsame | ⟨hgone, -⟩
    · have he : t.entry k = s.entry k := congrArg Prod.fst hsame
      have hr : t.disk.row k = s.disk.row k := congrArg (fun p => p.2.1) hsame
      rw [he]
      rw [hr] at hrow
      exact h.complete hfits k hrow
    · have hr : t.disk.row k = none := congrArg (fun p => p.2.1) hgone
      rw [hr] at hrow
      cases hrow

/-- The number of a new entry is taken. -/
theorem Loading.taken (h : Loading fits c params s) :
    Loading fits c params { s with nextSerial := s.nextSerial + 1 } :=
  ⟨⟨h.valid.wf, fun k info hentry => Nat.lt_succ_of_lt (h.valid.serial_lt k info hentry)⟩,
    h.faults_eq, h.nowAtEpoch_eq, h.maxSize_eq, h.cacheRootDir_eq, h.idle, h.row_of_entry, h.nodup,
    h.pending,
    h.exact_total, h.total, h.le_maxSize, h.complete⟩

/-- A row for which there is no room. -/
theorem Loading.skip (h : Loading fits c ((key, size) :: params) s)
    (hnot : ¬fits) : Loading fits c params s :=
  ⟨h.valid, h.faults_eq, h.nowAtEpoch_eq, h.maxSize_eq, h.cacheRootDir_eq, h.idle, h.row_of_entry,
    (List.nodup_cons.mp h.nodup).2, fun p hp => h.pending p (List.mem_cons_of_mem _ hp),
    fun hfits => absurd hfits hnot, fun hfits => absurd hfits hnot,
    fun hfits => absurd hfits hnot, fun hfits => absurd hfits hnot⟩

/-- A row that is loaded is one less to load. -/
theorem Loading.pushed (h : Loading fits c ((key, size) :: params) s)
    {info : HttpCacheInfo} (hkey : info.key = key) (hsize : info.dataSize = size)
    (hidle : info.dataRefCount = 0 ∧ info.reservedRemove = false)
    (hserial : info.serial < s.nextSerial) :
    Loading fits c params
      { s with lruCacheStrategy := s.lruCacheStrategy.push key info } := by
  -- the pushed key was among those still to come
  obtain ⟨hnone, hrow⟩ := h.pending (key, size) List.mem_cons_self
  obtain ⟨hfresh, hnodup⟩ := List.nodup_cons.mp h.nodup
  have hpush : (s.lruCacheStrategy.push key info).entry =
    Function.update s.entry key (some info) := h.valid.wf.entry_push hkey
  have hweight : weight s.lruCacheStrategy key = 0 := by
    have hnone : s.lruCacheStrategy.entry key = none := hnone
    unfold weight
    rw [hnone]
  have hsize' : (CacheInfo.getDataSize info).toNat = size.toNat := congrArg UInt64.toNat hsize
  -- the total stays below `2 ^ 64` as long as the rows fit
  have htotal : fits →
      s.lruCacheStrategy.totalSize.toNat + (size.toNat + sizeOf params) < 2 ^ 64 := by
    intro hfits
    have htotal := h.total hfits
    unfold sizeOf at htotal
    rw [List.map_cons, List.sum_cons] at htotal
    exact htotal
  have hexact : fits → Exact (s.lruCacheStrategy.push key info) ∧
      (s.lruCacheStrategy.push key info).totalSize.toNat =
        s.lruCacheStrategy.totalSize.toNat + size.toNat := by
    intro hfits
    have htotal := htotal hfits
    obtain ⟨hpushed, hsum⟩ := (h.exact_total hfits).push hkey (by omega)
    exact ⟨hpushed, by omega⟩
  refine ⟨⟨h.valid.wf.wf_push hkey, fun k i hi => ?_⟩, h.faults_eq, h.nowAtEpoch_eq,
    maxSize_push.trans h.maxSize_eq, h.cacheRootDir_eq, fun k i hi => ?_, fun k hk => ?_, hnodup,
    fun p hp => ?_, fun hfits => (hexact hfits).1, fun hfits => ?_,
    fun hfits p hp => h.le_maxSize hfits p (List.mem_cons_of_mem _ hp), fun hfits k hk => ?_⟩
  · have hi : (s.lruCacheStrategy.push key info).entry k = some i := hi
    rw [hpush] at hi
    -- the new entry, or one that was there
    by_cases hk : k = key
    · rw [hk, Function.update_self] at hi
      cases hi
      exact hserial
    · rw [Function.update_of_ne hk] at hi
      exact h.valid.serial_lt k i hi
  · have hi : (s.lruCacheStrategy.push key info).entry k = some i := hi
    rw [hpush] at hi
    by_cases hk : k = key
    · rw [hk, Function.update_self] at hi
      cases hi
      exact hidle
    · rw [Function.update_of_ne hk] at hi
      exact h.idle k i hi
  · have hk : ((s.lruCacheStrategy.push key info).entry k).isSome := hk
    rw [hpush] at hk
    by_cases hkey : k = key
    · rw [hkey]
      exact hrow
    · rw [Function.update_of_ne hkey] at hk
      exact h.row_of_entry k hk
  · obtain ⟨hp', hrow'⟩ := h.pending p (List.mem_cons_of_mem _ hp)
    refine ⟨?_, hrow'⟩
    have hmem : p.1 ∈ params.map Prod.fst := List.mem_map_of_mem hp
    have hne : p.1 ≠ key := fun heq => hfresh (heq ▸ hmem)
    show (s.lruCacheStrategy.push key info).entry p.1 = none
    rw [hpush, Function.update_of_ne hne]
    exact hp'
  · have htotal := htotal hfits
    have hsum := (hexact hfits).2
    dsimp only
    omega
  · show ((s.lruCacheStrategy.push key info).entry k).isSome ∨ _
    rw [hpush]
    by_cases hkey : k = key
    · rw [hkey, Function.update_self]
      exact .inl rfl
    · rw [Function.update_of_ne hkey]
      -- each row is loaded, or is still to come
      refine (h.complete hfits k hk).imp_right fun hmem => ?_
      exact (List.mem_cons.mp hmem).resolve_left hkey

/-- Nobody reads any of the entries. -/
theorem Loading.heldSize_eq_zero (h : Loading fits c params s) :
    heldSize (fun info => info.dataRefCount = 0) s.lruCacheStrategy = 0 := by
  unfold heldSize
  have hnil : (s.lruCacheStrategy.lruList.values.filter fun info =>
      !decide (info.dataRefCount = 0)) = [] := by
    rw [List.filter_eq_nil_iff]
    intro info hmem
    have hentry : s.entry info.key = some info := h.valid.wf.entry_eq_some_iff.mpr ⟨hmem, rfl⟩
    simp [(h.idle _ _ hentry).1]
  rw [hnil]
  rfl

/-- `makeSpace` for the next row, with what has been taken of it so far. -/
theorem Loading.wp_makeSpace (h : Loading fits c ((key, size) :: params) s) :
    wp (lru (HttpLruCacheStrategy.makeSpace · size))
      (fun ret t => Loading fits c ((key, size) :: params) t ∧
        t.nextSerial = s.nextSerial ∧ (fits → ret = true))
      (fun _ _ => False) s := by
  have hfiles := filesWork_of_faults_eq h.faults_eq
  have hheld : fits → wp (lru (HttpLruCacheStrategy.makeSpace · size))
      (fun ret _ => ret = true) (fun _ _ => True) s := by
    intro hfits
    have htotal := h.total hfits
    unfold sizeOf at htotal
    rw [List.map_cons, List.sum_cons] at htotal
    dsimp only at htotal
    refine wp_mono (wp_makeSpace_held (h.exact_total hfits) size (by omega)
      (.inl hfiles)) (fun ret t ht => ht.2.mpr ?_) fun _ _ _ => trivial
    have hle := UInt64.le_iff_toNat_le.mp (h.le_maxSize hfits (key, size) List.mem_cons_self)
    rw [h.heldSize_eq_zero, h.maxSize_eq, Nat.zero_add]
    exact hle
  have hanswer : wp (lru (HttpLruCacheStrategy.makeSpace · size))
      (fun ret _ => fits → ret = true) (fun _ _ => True) s := by
    by_cases hfits : fits
    · exact wp_mono (hheld hfits) (fun _ _ hret _ => hret) fun _ _ _ => trivial
    · exact wp_mono (wp_trivial _ s) (fun _ _ _ hf => absurd hf hfits) fun _ _ _ => trivial
  refine wp_mono (wp_and (wp_makeSpace_trimmed h.valid.wf size (.inl hfiles))
    hanswer) (fun ret t ht => ⟨h.trimmed ht.1, ht.1.nextSerial_eq, ht.2⟩) fun e t ht => ?_
  exact not_corruptFound_of_faults_eq h.faults_eq ht.1.2

/-- So each row is one step of the loading. -/
theorem Loading.wp_onEnumerate (h : Loading fits c ((key, size) :: params) s) :
    wp (onEnumerate key size) (fun _ t => Loading fits c params t)
      (fun _ _ => False) s := by
  unfold onEnumerate
  rw [wp_bind]
  refine wp_mono h.wp_makeSpace (fun ret t ht => ?_) fun _ _ he => he
  obtain ⟨ht, -, hret⟩ := ht
  cases ret with
  | false => exact ht.skip fun hfits => absurd (hret hfits) Bool.false_ne_true
  | true =>
    show wp (newHttpCacheInfo key size >>= _) _ _ t
    unfold newHttpCacheInfo
    rw [wp_bind, wp_bind, wp_getState, wp_bind, wp_modifyState, wp_pure, wp_bind]
    have htaken := ht.taken
    refine wp_add_unlisted (wp_addOrUpdate_new (ht.pending (key, size) List.mem_cons_self).1 ?_)
    refine wp_mono htaken.wp_makeSpace (fun ret u hu => ?_) fun _ _ he => he
    obtain ⟨hu, hnext, hret⟩ := hu
    cases ret with
    | false => exact hu.skip fun hfits => absurd (hret hfits) Bool.false_ne_true
    | true =>
      refine hu.pushed rfl rfl ⟨rfl, rfl⟩ ?_
      rw [hnext]
      exact Nat.lt_succ_self _

/-- After the enumeration all rows that fit are entries. -/
theorem wp_enumerate_construct {disk : Disk} (hfaults : disk.faults = {}) :
    wp enumerate
      (fun _ t => Loading (RowsFit maxSize disk.rows) (construct cacheRootDir maxSize disk) [] t)
      (fun _ _ => False) (construct cacheRootDir maxSize disk) := by
  unfold enumerate
  rw [wp_bind, wp_onDisk]
  refine wp_mono (wp_queryAll disk) (fun params d hd => ?_) fun e d hd =>
    not_databaseFails_of_faults_eq hfaults hd.2
  obtain ⟨hsame, hperm⟩ := hd
  -- the query has answered each row once
  have hkeys : (params.map Prod.fst).Perm (disk.rows.entries.map Prod.fst) := by
    have h := hperm.map Prod.fst
    rw [List.map_map] at h
    exact h
  have hrow : ∀ k, k ∈ params.map Prod.fst ↔ (d.row k).isSome := by
    intro k
    rw [hkeys.mem_iff, hsame.row]
    unfold Disk.row
    rw [Option.isSome_iff_ne_none, ne_eq, SortedMap.find?_eq_none_iff, not_not]
  -- nothing is loaded, and every row is still to come
  have hstart : Loading (RowsFit maxSize disk.rows) (construct cacheRootDir maxSize disk) params
      { construct cacheRootDir maxSize disk with disk := d } := by
    refine ⟨⟨wf_construct _, nofun⟩, Disk.Later.faults_eq hsame.1 hfaults, hsame.1.1, rfl, rfl,
      nofun, nofun, ?_, fun p hp => ⟨rfl, ?_⟩, fun _ => (bounded_construct _).toExact,
      fun hfits => ?_, fun hfits p hp => ?_, fun _ k hk => .inr ((hrow k).mpr hk)⟩
    · exact hkeys.nodup_iff.mpr disk.rows.nodup_keys
    · exact (hrow p.1).mp (List.mem_map_of_mem hp)
    · show 0 + sizeOf params < 2 ^ 64
      -- the order of the rows plays no part in their sum
      have hsum : sizeOf params =
          (disk.rows.entries.map fun e => e.2.responseBodySize.toNat).sum := by
        unfold sizeOf
        rw [(hperm.map _).sum_eq, List.map_map]
        rfl
      rw [Nat.zero_add, hsum]
      exact hfits.2
    · obtain ⟨e, he, rfl⟩ := List.mem_map.mp (hperm.mem_iff.mp hp)
      exact hfits.1 e he
  -- the invariant of the loop, with the rows that are left
  refine wp_forEach (I := fun params t =>
    Loading (RowsFit maxSize disk.rows) (construct cacheRootDir maxSize disk) params t)
    (fun param rest t ht => ?_) hstart
  rw [wp_bind, wp_onDisk]
  refine wp_mono (Disk.wp_databaseCall t.disk) (fun _ d' hd' => ?_) fun e d' hd' =>
    not_databaseFails_of_faults_eq ht.faults_eq hd'.2.1
  have ht' := ht.trimmed (untrimmed_of_same ht.valid.wf hd'.1)
  rw [wp_bind]
  exact wp_mono ht'.wp_onEnumerate (fun _ u hu => hu) fun _ _ he => he

/-- Each row becomes an entry when all of them fit. -/
theorem wp_initializeCache_construct {disk : Disk} (hfaults : disk.faults = {})
    (hdir : cacheRootDir ≠ "") :
    wp initializeCache
      (fun _ t => Loading (RowsFit maxSize disk.rows) (construct cacheRootDir maxSize disk) [] t ∧
        t.cacheInitialized = true)
      (fun _ _ => False) (construct cacheRootDir maxSize disk) := by
  have hfiles := filesWork_of_faults_eq hfaults
  unfold initializeCache
  rw [wp_bind, wp_getState]
  show wp (getState >>= _) _ _ _
  rw [wp_bind, wp_getState, wp_bind, wp_onDisk]
  refine wp_mono (wp_createDirsIfAbsent disk _) (fun created d hd => ?_) fun _ _ he => he.elim
  obtain ⟨hsame, hcreated⟩ := hd
  have hcreated : created = true := hcreated hfiles hdir
  subst hcreated
  show wp (enumerate >>= _) _ _ _
  rw [wp_bind]
  have hrows : d.rows = disk.rows := hsame.2.2
  have hloaded : wp enumerate
      (fun _ t => Loading (RowsFit maxSize d.rows) (construct cacheRootDir maxSize d) [] t)
      (fun _ _ => False) (construct cacheRootDir maxSize d) :=
    wp_enumerate_construct (Disk.Later.faults_eq hsame.1 hfaults)
  refine wp_mono hloaded (fun _ t ht => ?_) fun _ _ he => he
  rw [hrows] at ht
  exact ⟨⟨⟨ht.valid.wf, ht.valid.serial_lt⟩, ht.faults_eq, ht.nowAtEpoch_eq.trans hsame.1.1,
    ht.maxSize_eq, ht.cacheRootDir_eq, ht.idle, ht.row_of_entry, ht.nodup, ht.pending,
    ht.exact_total, ht.total, ht.le_maxSize, ht.complete⟩, rfl⟩

end EasyHttp.HttpFileCache
