import EasyHttp.Cache.CacheEnumeration
import EasyHttp.Library.SizedQueue

/-!
# What `makeSpace` removes, in order

A cache that nobody reads is a queue of sized items: the entry that was used the longest time ago
stands first, and leaves first. The file operations work here, and of the calls of the database
one may fail.

* `queueOf`: the queue that the list is;
* `Takes`: the entries, rows and bodies of some keys are gone, and nothing else is changed;
* `Outcome`: what is so unless the failure has been met;
* `wp_makeSpace_queue`, `wp_makeSpace_large`: what `makeSpace` takes, and when it takes nothing.
-/

namespace EasyHttp.LruCacheByDataSizeStrategy

variable {ι : Type} [CacheInfo ι] {lru : LruCacheByDataSizeStrategy ι} {key : String} {info : ι}

open CacheInfo

/-- Taking a key out leaves the others in their order. -/
theorem Wf.values_unlist (h : lru.Wf) : (lru.unlist key).lruList.values =
    lru.lruList.values.filter fun info => getKey info ≠ key := by
  unfold unlist
  cases hfind : lru.find key with
  | none =>
    dsimp only
    refine (List.filter_eq_self.mpr fun info hmem => ?_).symm
    have hne : getKey info ≠ key := by
      intro hkey
      have hentry := h.entry_eq_some_iff.mpr ⟨hmem, hkey⟩
      rw [entry_eq_none_iff.mpr hfind] at hentry
      cases hentry
    simpa using hne
  | some found =>
    obtain ⟨it, old⟩ := found
    show ((lru.lruList.nodes.filter fun n => n.1 ≠ it).map Prod.snd) =
      (lru.lruList.nodes.map Prod.snd).filter fun info => getKey info ≠ key
    rw [List.filter_map]
    congr 1
    refine List.filter_congr fun n hn => ?_
    -- the node of the iterator is the one whose object has the key
    have hderef : lru.lruList.deref n.1 = some n.2 := IterList.deref_eq_some_iff.mpr hn
    have hiff : n.1 = it ↔ getKey n.2 = key := by
      constructor
      · intro hit
        have hfound := h.find_eq_some_iff.mp hfind
        rw [hit, hfound.1] at hderef
        cases hderef
        exact hfound.2
      · intro hkey
        have hmap := h.mapped n.1 n.2 hderef
        rw [hkey, (find_eq_some hfind).1] at hmap
        cases hmap
        rfl
    simp [hiff]

theorem Wf.values_drop (h : lru.Wf) : (lru.drop key).lruList.values =
    lru.lruList.values.filter fun info => getKey info ≠ key := h.values_unlist

/-- What is put in comes first. -/
theorem Wf.values_push (h : lru.Wf) : (lru.push key info).lruList.values =
    info :: lru.lruList.values.filter fun info => getKey info ≠ key := by
  show ((lru.unlist key).lruList.pushFront info).values = _
  rw [IterList.values_pushFront, h.values_unlist]

end EasyHttp.LruCacheByDataSizeStrategy

namespace EasyHttp.HttpFileCache

open Exec LruCacheByDataSizeStrategy LruOperations LruCapacity SizedQueue

/-! ## Failures ahead -/

/-- No file operation fails any more, and the calls of the database meet some successes and
then `pending`. -/
def Ahead (pending : List Fault) (disk : Disk) : Prop :=
  disk.faults.file = [] ∧ ∃ n, disk.faults.database = List.replicate n .none ++ pending

variable {pending : List Fault} {cacheRootDir key : String} {s t u : Stores}
  {disk d : Disk} {keys : List String}

/-- Only the database will fail. -/
theorem Ahead.filesWork (h : Ahead pending disk) : disk.FilesWork := by
  intro fault hfault
  rw [h.1] at hfault
  cases hfault

/-- Nothing, or one failure that is not a corruption. -/
def OneFailure (pending : List Fault) : Prop := pending = [] ∨ pending = [.fails]

/-- The call goes on, or it met the failure and nothing fails any more. -/
theorem wp_databaseCall_ahead (hpending : OneFailure pending) (h : Ahead pending disk) :
    wp Disk.databaseCall (fun _ d => Disk.Same disk d ∧ Ahead pending d)
      (fun e d => Disk.Same disk d ∧ d.faults = {} ∧ pending = [.fails] ∧
        ∃ message, e = .sql (.execution message)) disk := by
  obtain ⟨hfile, n, hdatabase⟩ := h
  have hsame : Disk.Same disk
      { disk with faults := { disk.faults with database := disk.faults.database.tail } } :=
    ⟨⟨rfl, List.tail_suffix _, List.suffix_refl _⟩, rfl, rfl⟩
  unfold Disk.databaseCall
  rw [wp_bind, wp_getState, wp_bind, wp_modifyState]
  cases n with
  | succ n =>
    rw [List.replicate_succ, List.cons_append] at hdatabase
    rw [hdatabase] at hsame ⊢
    exact ⟨hsame, hfile, n, rfl⟩
  | zero =>
    rw [List.replicate_zero, List.nil_append] at hdatabase
    rcases hpending with rfl | rfl
    · rw [hdatabase] at hsame ⊢
      exact ⟨hsame, hfile, 0, rfl⟩
    · rw [hdatabase] at hsame ⊢
      refine ⟨hsame, ?_, rfl, _, rfl⟩
      show (⟨[], disk.faults.file⟩ : Faults) = {}
      rw [hfile]

/-- The failures of the database to come are as before. -/
def SameDatabaseFaults (disk d : Disk) : Prop := d.faults.database = disk.faults.database

instance : Std.Refl SameDatabaseFaults := ⟨fun _ => rfl⟩

instance : IsTrans Disk SameDatabaseFaults := ⟨fun _ _ _ hst htu => htu.trans hst⟩

/-- The file system takes none of the database's failures. -/
theorem sameDatabaseFaults_fileCall (message : String) :
    Keeps SameDatabaseFaults (Disk.fileCall message) := by
  refine keeps_bind keeps_getState fun _ => keeps_bind (keeps_modifyState fun _ => rfl) fun _ => ?_
  split
  · exact keeps_throw _
  · exact keeps_pure _

theorem sameDatabaseFaults_catchPoco {α : Type} (a : α) (e : CacheException) :
    Keeps SameDatabaseFaults (catchPoco (pure a) e) := by
  unfold catchPoco
  split
  · exact keeps_pure _
  · exact keeps_throw _

theorem sameDatabaseFaults_createDirsIfAbsent (dir : String) :
    Keeps SameDatabaseFaults (FileUtil.createDirsIfAbsent dir) := by
  refine keeps_tryCatch ?_ (sameDatabaseFaults_catchPoco false)
  split
  · exact keeps_pure _
  · exact keeps_bind (sameDatabaseFaults_fileCall dir) fun _ => keeps_pure _

theorem sameDatabaseFaults_removeFileIfPresent (path : String) :
    Keeps SameDatabaseFaults (FileUtil.removeFileIfPresent path) := by
  have hexist : Keeps SameDatabaseFaults (File.exist path) :=
    keeps_bind (sameDatabaseFaults_fileCall path) fun _ =>
      keeps_bind keeps_getState fun _ => keeps_pure _
  have hremove : Keeps SameDatabaseFaults (File.remove path) := by
    refine keeps_bind (sameDatabaseFaults_fileCall path) fun _ => ?_
    refine keeps_bind keeps_getState fun _ => ?_
    split
    · exact keeps_modifyState fun _ => rfl
    · exact keeps_throw _
  refine keeps_tryCatch ?_ (sameDatabaseFaults_catchPoco false)
  refine keeps_bind hexist fun found => ?_
  split
  · exact keeps_pure _
  · refine keeps_bind hexist fun regular => ?_
    split
    · exact keeps_pure _
    · exact keeps_bind hremove fun _ => keeps_bind hexist fun _ => keeps_pure _

/-- What is still to fail is so after calls of the file system. -/
theorem Ahead.of_later (h : Ahead pending disk) (hlater : Disk.Later disk d)
    (hdatabase : SameDatabaseFaults disk d) : Ahead pending d := by
  obtain ⟨hfile, n, hn⟩ := h
  obtain ⟨-, -, hsuffix⟩ := hlater
  rw [hfile] at hsuffix
  exact ⟨List.suffix_nil.mp hsuffix, n, hdatabase.trans hn⟩

/-- The row and the body of a key are taken away, unless the failure is met: then neither is. -/
theorem wp_onRemove_ahead (hpending : OneFailure pending) (h : Ahead pending disk)
    (hrow : (disk.row key).isSome) :
    wp (onRemove cacheRootDir key)
      (fun ret d => d.nowAtEpoch = disk.nowAtEpoch ∧
        (ret = true ∧ Ahead pending d ∧ d.row = Function.update disk.row key none ∧
          d.file = Function.update disk.file (makeCachedFilename cacheRootDir key) none ∨
        d.faults = {} ∧ pending = [.fails]))
      (fun _ _ => False) disk := by
  unfold onRemove
  rw [wp_bind, wp_tryCatch]
  unfold HttpCacheDatabase.deleteMetadata
  rw [wp_bind]
  refine wp_mono (wp_databaseCall_ahead hpending h) (fun _ d hd => ?_) fun e d hd => ?_
  · obtain ⟨hsame, hahead⟩ := hd
    have hdeleted : (d.rows.find? key).isSome = true := by
      show (d.row key).isSome = true
      rw [hsame.row]
      exact hrow
    rw [wp_bind, wp_getState, hdeleted, wp_bind, wp_modifyState, wp_pure]
    show wp (FileUtil.removeFileIfPresent _) _ _ { d with rows := d.rows.erase key }
    refine wp_mono (wp_and (wp_removeFileIfPresent _ _)
      (wp_of_keeps (sameDatabaseFaults_removeFileIfPresent _) _)) (fun ret d' hd' => ?_)
      fun _ _ he => he.1.elim
    obtain ⟨⟨hlater, hrows, hret, hfile⟩, hdatabase⟩ := hd'
    have htrue := hret hahead.filesWork
    subst htrue
    refine ⟨hlater.1.trans hsame.1.1, .inl ⟨rfl, hahead.of_later hlater hdatabase, ?_, ?_⟩⟩
    · have herased : d'.row = Function.update d.row key none := by
        unfold Disk.row
        rw [hrows]
        exact SortedMap.find?_erase_eq _ _
      rw [herased, hsame.row]
    · rw [← hsame.file]
      exact hfile.resolve_right fun hnot => Bool.false_ne_true hnot.1.symm
  · obtain ⟨hsame, hspent, hfails, message, rfl⟩ := hd
    exact ⟨hsame.1.1, .inr ⟨hspent, hfails⟩⟩

/-! ## Removals in order -/

/-- Nobody reads any of the entries. -/
def NobodyReads (lru : LruCacheByDataSizeStrategy HttpCacheInfo) : Prop :=
  ∀ info ∈ lru.lruList.values, info.dataRefCount = 0 ∧ info.reservedRemove = false

/-- The list as a queue. -/
def queueOf (lru : LruCacheByDataSizeStrategy HttpCacheInfo) : List (String × ℕ) :=
  (lru.lruList.values.map fun info => (info.key, info.dataSize.toNat)).reverse

/-- Nothing fails any more; what is listed may be anything that nobody reads. -/
structure Spent (s : Stores) : Prop where
  wf : s.1.Wf
  idle : NobodyReads s.1
  faults_eq : s.2.faults = {}

/-- What is so unless the failure has been met. -/
def Outcome (pending : List Fault) (P : Prop) (s : Stores) : Prop :=
  P ∧ Ahead pending s.2 ∨ Spent s ∧ pending = [.fails]

theorem Outcome.mono {P Q : Prop} (h : Outcome pending P s) (hPQ : P → Q) :
    Outcome pending Q s := h.imp_left (And.imp_left hPQ)

/-- The entries, rows and bodies of the keys are gone, and nothing else is changed. -/
structure Takes (cacheRootDir : String) (keys : List String) (s t : Stores) : Prop where
  exact_total : Exact t.1
  values_eq : t.1.lruList.values = s.1.lruList.values.filter fun info => info.key ∉ keys
  maxSize_eq : t.1.maxSize = s.1.maxSize
  nowAtEpoch_eq : t.2.nowAtEpoch = s.2.nowAtEpoch
  row_eq : ∀ k, t.2.row k = if k ∈ keys then none else s.2.row k
  file_eq : ∀ p, t.2.file p =
    if ∃ k ∈ keys, p = makeCachedFilename cacheRootDir k then none else s.2.file p

theorem takes_nil (h : Exact s.1) : Takes cacheRootDir [] s s := by
  refine ⟨h, ?_, rfl, rfl, fun k => ?_, fun p => ?_⟩
  · simp
  · rw [if_neg List.not_mem_nil]
  · rw [if_neg]
    rintro ⟨k, hk, -⟩
    exact List.not_mem_nil hk

theorem Takes.trans (hst : Takes cacheRootDir [key] s t) (htu : Takes cacheRootDir keys t u) :
    Takes cacheRootDir (key :: keys) s u where
  exact_total := htu.exact_total
  values_eq := by
    rw [htu.values_eq, hst.values_eq, List.filter_filter]
    refine List.filter_congr fun info _ => ?_
    simp [Bool.and_comm]
  maxSize_eq := htu.maxSize_eq.trans hst.maxSize_eq
  nowAtEpoch_eq := htu.nowAtEpoch_eq.trans hst.nowAtEpoch_eq
  row_eq := by
    intro k
    rw [htu.row_eq, hst.row_eq]
    by_cases hk : k = key
    · simp [hk]
    · simp [hk]
  file_eq := by
    intro p
    rw [htu.file_eq, hst.file_eq]
    by_cases hp : p = makeCachedFilename cacheRootDir key
    · simp [hp]
    · simp [hp]

/-- Nobody begins to read meanwhile. -/
theorem Takes.idle (h : Takes cacheRootDir keys s t) (hs : NobodyReads s.1) : NobodyReads t.1 := by
  intro info hinfo
  rw [h.values_eq] at hinfo
  exact hs info (List.mem_of_mem_filter hinfo)

/-- Where nobody reads each entry is idle. -/
theorem isIdle_of_nobodyReads (hwf : s.1.Wf) (h : NobodyReads s.1) : IsIdle s.1 key :=
  fun info hentry => (h info (hwf.entry_eq_some_iff.mp hentry).1).1

/-- The removal of one entry that has its row. -/
theorem wp_remove_takes (hpending : OneFailure pending) (hahead : Ahead pending s.2)
    (hexact : Exact s.1) (hidle : NobodyReads s.1) (hlisted : (s.1.entry key).isSome)
    (hrow : (s.2.row key).isSome) :
    wp (HttpLruCacheStrategy.remove (listener cacheRootDir) key)
      (fun _ t => Outcome pending (Takes cacheRootDir [key] s t) t) (fun _ _ => False) s := by
  unfold wp
  rw [exec_remove_idle (isIdle_of_nobodyReads hexact.wf hidle)]
  show wp (LruCacheByDataSizeStrategy.remove (listener cacheRootDir) key) _ _ s
  obtain ⟨info, hentry⟩ := Option.isSome_iff_exists.mp hlisted
  obtain ⟨it, hfind⟩ := find_of_entry hentry
  rw [wp_remove hfind]
  have hdropped : NobodyReads (s.1.drop key) := by
    intro i hi
    rw [hexact.wf.values_drop] at hi
    exact hidle i (List.mem_of_mem_filter hi)
  refine wp_mono (wp_onRemove_ahead hpending hahead hrow) (fun ret d hd => ?_)
    fun _ _ he => he.elim
  obtain ⟨hnow, hd⟩ := hd
  cases ret with
  | true =>
    rcases hd with ⟨-, hahead', hrow', hfile'⟩ | ⟨hspent, hfails⟩
    · refine .inl ⟨⟨hexact.drop, ?_, maxSize_drop key, hnow, fun k => ?_, fun p => ?_⟩, hahead'⟩
      · rw [hexact.wf.values_drop]
        exact List.filter_congr fun i _ => by simp [CacheInfo.getKey]
      · show d.row k = _
        rw [hrow', Function.update_apply]
        simp
      · show d.file p = _
        rw [hfile', Function.update_apply]
        simp
    · exact .inr ⟨⟨hexact.wf.wf_drop, hdropped, hspent⟩, hfails⟩
  | false =>
    rcases hd with ⟨htrue, -⟩ | ⟨hspent, hfails⟩
    · exact absurd htrue Bool.false_ne_true
    · exact .inr ⟨⟨hexact.wf, hidle, hspent⟩, hfails⟩

/-- Once the failure is over it is over after a removal too. -/
theorem wp_remove_spent (h : Spent s) :
    wp (HttpLruCacheStrategy.remove (listener cacheRootDir) key) (fun _ t => Spent t)
      (fun _ _ => False) s := by
  have hfiles := filesWork_of_faults_eq h.faults_eq
  have hidle : IsIdle s.1 key := isIdle_of_nobodyReads h.wf h.idle
  unfold wp
  rw [exec_remove_idle hidle]
  show wp (LruCacheByDataSizeStrategy.remove (listener cacheRootDir) key) _ _ s
  cases hfind : s.1.find key with
  | none =>
    unfold LruCacheByDataSizeStrategy.remove
    rw [wp_bind, wp_getState, hfind]
    exact h
  | some found =>
    obtain ⟨it, info⟩ := found
    rw [wp_remove hfind]
    refine wp_mono (wp_onRemove hfiles key) (fun ret d hd => ?_) fun e d hd =>
      not_corruptFound_of_faults_eq h.faults_eq hd.2.1
    have hfaults := Disk.Later.faults_eq hd.1 h.faults_eq
    cases ret with
    | true =>
      refine ⟨h.wf.wf_drop, fun i hi => ?_, hfaults⟩
      rw [h.wf.values_drop] at hi
      exact h.idle i (List.mem_of_mem_filter hi)
    | false => exact ⟨h.wf, h.idle, hfaults⟩

/-- So for a list of keys. -/
theorem wp_removeKeys_spent (h : Spent s) :
    wp (forEach (removeKey (HttpLruCacheStrategy.virtuals (listener cacheRootDir)) "") keys)
      (fun _ t => Spent t) (fun _ _ => False) s := by
  refine wp_forEach (I := fun _ t => Spent t) (fun key rest t ht => ?_) h
  unfold removeKey
  rw [if_pos (.inl rfl), wp_bind]
  exact wp_mono (wp_remove_spent ht) (fun _ _ hu => hu) fun _ _ he => he

/-- The keys leave in their order, up to the failure. -/
theorem wp_removeKeys_takes (hpending : OneFailure pending) (hahead : Ahead pending s.2)
    (hexact : Exact s.1) (hidle : NobodyReads s.1) (hnodup : keys.Nodup)
    (hlisted : ∀ key ∈ keys, (s.1.entry key).isSome ∧ (s.2.row key).isSome) :
    wp (forEach (removeKey (HttpLruCacheStrategy.virtuals (listener cacheRootDir)) "") keys)
      (fun _ t => Outcome pending (Takes cacheRootDir keys s t) t) (fun _ _ => False) s := by
  induction keys generalizing s with
  | nil => exact .inl ⟨takes_nil hexact, hahead⟩
  | cons key keys ih =>
    obtain ⟨hfresh, hrest⟩ := List.nodup_cons.mp hnodup
    obtain ⟨hentry, hrow⟩ := hlisted key List.mem_cons_self
    show wp (removeKey _ "" key >>= fun _ => forEach _ keys) _ _ s
    unfold removeKey
    rw [wp_bind, if_pos (.inl rfl), wp_bind]
    refine wp_mono (wp_remove_takes hpending hahead hexact hidle hentry hrow) (fun _ t ht => ?_)
      fun _ _ he => he
    rw [wp_pure]
    rcases ht with ⟨htakes, hahead'⟩ | ⟨hspent, hfails⟩
    · -- the other keys have still their entries and rows
      refine wp_mono (ih hahead' htakes.exact_total (htakes.idle hidle) hrest fun k hk => ?_)
        (fun _ u hu => hu.mono htakes.trans) fun _ _ he => he
      have hne : k ∉ [key] := fun h => hfresh (List.mem_singleton.mp h ▸ hk)
      obtain ⟨hentry', hrow'⟩ := hlisted k (List.mem_cons_of_mem key hk)
      obtain ⟨info, hinfo⟩ := Option.isSome_iff_exists.mp hentry'
      obtain ⟨hmem, hkey⟩ := hexact.wf.entry_eq_some_iff.mp hinfo
      have hkept : t.1.entry k = some info := by
        rw [htakes.exact_total.wf.entry_eq_some_iff, htakes.values_eq, List.mem_filter]
        have hkey' : info.key = k := hkey
        exact ⟨⟨hmem, by simpa [hkey'] using hne⟩, hkey⟩
      rw [hkept, htakes.row_eq, if_neg hne]
      exact ⟨rfl, hrow'⟩
    · exact wp_mono (wp_removeKeys_spent hspent) (fun _ _ hu => .inr ⟨hu, hfails⟩)
        fun _ _ he => he

/-! ## The choice -/

/-- The oldest entries are chosen, and no more of them than are needed. -/
theorem removeLruDataLoop_eq {removable : HttpCacheInfo → Bool} {removeSize : UInt64}
    {infos : List HttpCacheInfo} {targetSize : UInt64}
    (hremovable : ∀ info ∈ infos, removable info = true)
    (hfits : targetSize.toNat + sizes infos < 2 ^ 64) :
    removeLruDataLoop removable removeSize infos targetSize keys =
      if targetSize.toNat + sizes infos < removeSize.toNat then none
      else some (((oldest (removeSize.toNat - targetSize.toNat)
        (infos.map fun info => (info.key, info.dataSize.toNat))).map Prod.fst).reverse ++
          keys) := by
  -- induction on the list; the code counts upwards, the queue counts what is missing
  induction infos generalizing targetSize keys with
  | nil =>
    unfold removeLruDataLoop
    by_cases hlt : targetSize < removeSize
    · rw [if_pos hlt]
      exact (if_pos (UInt64.lt_iff_toNat_lt.mp hlt)).symm
    · rw [if_neg hlt]
      exact (if_neg (UInt64.lt_iff_toNat_lt.not.mp hlt)).symm
  | cons info infos ih =>
    have hsize : (CacheInfo.getDataSize info).toNat = info.dataSize.toNat := rfl
    rw [sizes_cons, hsize] at hfits ⊢
    unfold removeLruDataLoop
    by_cases hlt : targetSize < removeSize
    -- something is missing, and the oldest entry goes
    · have hlt' := UInt64.lt_iff_toNat_lt.mp hlt
      have hadd : (targetSize + CacheInfo.getDataSize info).toNat =
          targetSize.toNat + info.dataSize.toNat := by
        rw [UInt64.toNat_add, hsize]
        omega
      rw [if_pos hlt, if_pos (hremovable info List.mem_cons_self),
        ih (fun i hi => hremovable i (List.mem_cons_of_mem info hi)) (by omega), hadd,
        Nat.add_assoc]
      have hne : removeSize.toNat - targetSize.toNat ≠ 0 := by omega
      rw [List.map_cons]
      show _ = if _ then none else some ((List.map Prod.fst (if _ then [] else _)).reverse ++ keys)
      rw [if_neg hne, List.map_cons, List.reverse_cons, List.append_assoc, Nat.sub_sub]
      rfl
    -- nothing is missing
    · have hge := UInt64.lt_iff_toNat_lt.not.mp hlt
      have hzero : removeSize.toNat - targetSize.toNat = 0 := by omega
      rw [if_neg hlt, if_neg (by omega), hzero, oldest_zero]
      rfl

/-- The queue begins with the oldest entry. -/
theorem keys_queueOf (lru : LruCacheByDataSizeStrategy HttpCacheInfo) :
    SizedQueue.keys (queueOf lru) = (lru.lruList.values.map (·.key)).reverse := by
  unfold SizedQueue.keys queueOf
  rw [List.map_reverse, List.map_map]
  rfl

/-- Its size is that of the entries. -/
theorem size_queueOf (lru : LruCacheByDataSizeStrategy HttpCacheInfo) :
    size (queueOf lru) = sizes lru.lruList.values := by
  unfold queueOf
  rw [size_perm (List.reverse_perm _)]
  unfold size sizes
  rw [List.map_map]
  rfl

/-- Each key is in the queue once. -/
theorem nodup_keys_queueOf {lru : LruCacheByDataSizeStrategy HttpCacheInfo} (h : lru.Wf) :
    (SizedQueue.keys (queueOf lru)).Nodup := by
  rw [keys_queueOf]
  exact List.nodup_reverse.mpr (nodup_keys h)

/-- The keys in the queue are those of the entries. -/
theorem mem_keys_queueOf {lru : LruCacheByDataSizeStrategy HttpCacheInfo} (h : lru.Wf) :
    key ∈ SizedQueue.keys (queueOf lru) ↔ (lru.entry key).isSome := by
  rw [keys_queueOf, List.mem_reverse, List.mem_map, Option.isSome_iff_exists]
  constructor
  · intro hmem
    obtain ⟨info, hinfo, hkey⟩ := hmem
    exact ⟨info, h.entry_eq_some_iff.mpr ⟨hinfo, hkey⟩⟩
  · intro hentry
    obtain ⟨info, hinfo⟩ := hentry
    exact ⟨info, h.entry_eq_some_iff.mp hinfo⟩

/-- The queue without the oldest entries, when these were taken. -/
theorem queueOf_takes {n : ℕ} (hwf : s.1.Wf)
    (h : Takes cacheRootDir (SizedQueue.keys (oldest n (queueOf s.1))).reverse s t) :
    queueOf t.1 = dropOldest n (queueOf s.1) := by
  have hfilter : queueOf t.1 = (queueOf s.1).filter fun p =>
      p.1 ∉ SizedQueue.keys (oldest n (queueOf s.1)) := by
    unfold queueOf
    rw [h.values_eq, List.filter_reverse, List.filter_map]
    congr 2
    refine List.filter_congr fun info _ => ?_
    simp only [Function.comp_apply, List.mem_reverse]
    rfl
  have hnodup := nodup_keys_queueOf hwf
  have hsplit := oldest_append_dropOldest n (queueOf s.1)
  have hkept : ∀ p ∈ dropOldest n (queueOf s.1),
      p.1 ∉ SizedQueue.keys (oldest n (queueOf s.1)) := by
    rw [← hsplit] at hnodup
    unfold SizedQueue.keys at hnodup
    rw [List.map_append] at hnodup
    exact fun p hp hmem => (List.nodup_append.mp hnodup).2.2 p.1 hmem p.1
      (List.mem_map_of_mem hp) rfl
  have hgone : ∀ p ∈ oldest n (queueOf s.1), p.1 ∈ SizedQueue.keys (oldest n (queueOf s.1)) :=
    fun p hp => List.mem_map_of_mem hp
  rw [hfilter]
  conv_lhs => rw [← hsplit]
  rw [List.filter_append]
  have hnil : (oldest n (queueOf s.1)).filter (fun p =>
      p.1 ∉ SizedQueue.keys (oldest n (queueOf s.1))) = [] := by
    rw [List.filter_eq_nil_iff]
    intro p hp
    simpa using hgone p hp
  rw [oldest_append_dropOldest, hnil, List.nil_append, List.filter_eq_self]
  intro p hp
  simpa using hkept p hp

/-- Where nobody reads, the oldest entries are listed. -/
theorem createRemoveLruDataList_eq {lru : LruCacheByDataSizeStrategy HttpCacheInfo}
    (removeSize : UInt64) (hexact : Exact lru) (hidle : NobodyReads lru) :
    HttpLruCacheStrategy.createRemoveLruDataList lru removeSize =
      if lru.totalSize.toNat < removeSize.toNat then none
      else some (SizedQueue.keys (oldest removeSize.toNat (queueOf lru))).reverse := by
  have hremovable : ∀ info ∈ lru.lruList.values.reverse,
      decide (info.dataRefCount = 0) = true := fun info hinfo =>
    decide_eq_true (hidle info (List.mem_reverse.mp hinfo)).1
  have htotal : sizes lru.lruList.values.reverse = lru.totalSize.toNat := by
    rw [sizes_perm (List.reverse_perm _), hexact.total]
  have hzero : (0 : UInt64).toNat = 0 := rfl
  have hlt := lru.totalSize.toNat_lt
  unfold HttpLruCacheStrategy.createRemoveLruDataList
  rw [removeLruDataLoop_eq hremovable (by rw [htotal, hzero]; omega), htotal, hzero, Nat.zero_add,
    Nat.sub_zero, List.append_nil, List.map_reverse]
  rfl

/-- What is too much, as the code counts it. -/
theorem toNat_excess {lru : LruCacheByDataSizeStrategy HttpCacheInfo} {requestSize : UInt64}
    (hexact : Exact lru) (hfits : lru.totalSize.toNat + requestSize.toNat < 2 ^ 64)
    (hspace : ¬lru.totalSize + requestSize ≤ lru.maxSize) (key : String) :
    (lru.totalSize + requestSize - lru.maxSize).toNat =
        excess lru.maxSize.toNat (queueOf lru) (key, requestSize.toNat) ∧
      lru.maxSize.toNat < lru.totalSize.toNat + requestSize.toNat := by
  have hadd : (lru.totalSize + requestSize).toNat = lru.totalSize.toNat + requestSize.toNat := by
    rw [UInt64.toNat_add]
    omega
  rw [UInt64.le_iff_toNat_le] at hspace
  refine ⟨?_, by omega⟩
  rw [UInt64.toNat_sub_of_le _ _ (UInt64.le_iff_toNat_le.mpr (by omega)), hadd]
  unfold excess
  rw [size_queueOf, hexact.total]

/-- No space is made for what is larger than the capacity. -/
theorem wp_makeSpace_large {requestSize : UInt64} (hexact : Exact s.1) (hidle : NobodyReads s.1)
    (hfits : s.1.totalSize.toNat + requestSize.toNat < 2 ^ 64)
    (hlarge : s.1.maxSize < requestSize) :
    wp (HttpLruCacheStrategy.makeSpace (listener cacheRootDir) requestSize)
      (fun ret t => ret = false ∧ t = s) (fun _ _ => False) s := by
  have hlarge' := UInt64.lt_iff_toNat_lt.mp hlarge
  have hspace : ¬s.1.totalSize + requestSize ≤ s.1.maxSize := by
    rw [UInt64.le_iff_toNat_le, UInt64.toNat_add]
    omega
  obtain ⟨hexcess, -⟩ := toNat_excess hexact hfits hspace ""
  unfold HttpLruCacheStrategy.makeSpace makeSpace
  by_cases hempty : s.1.lruList.values.isEmpty = true
  · exact (wp_makeSpaceFor_empty hspace hempty).mpr ⟨rfl, rfl⟩
  · have hchoice := createRemoveLruDataList_eq (s.1.totalSize + requestSize - s.1.maxSize) hexact
      hidle
    have htooMuch : s.1.totalSize.toNat <
        (s.1.totalSize + requestSize - s.1.maxSize).toNat := by
      rw [hexcess]
      unfold excess
      rw [size_queueOf, ← hexact.total]
      dsimp only
      omega
    rw [if_pos htooMuch] at hchoice
    exact (wp_makeSpaceFor_none hspace hempty hchoice).mpr ⟨rfl, rfl⟩

/-- As many of the oldest entries are taken as are needed. -/
theorem wp_makeSpace_queue {requestSize : UInt64} (hpending : OneFailure pending)
    (hahead : Ahead pending s.2) (hexact : Exact s.1) (hidle : NobodyReads s.1)
    (hrows : ∀ k, (s.1.entry k).isSome → (s.2.row k).isSome)
    (hfits : s.1.totalSize.toNat + requestSize.toNat < 2 ^ 64)
    (hle : requestSize ≤ s.1.maxSize) (key : String) :
    wp (HttpLruCacheStrategy.makeSpace (listener cacheRootDir) requestSize)
      (fun ret t => ret = true ∧ Outcome pending (Takes cacheRootDir (SizedQueue.keys
        (oldest (excess s.1.maxSize.toNat (queueOf s.1) (key, requestSize.toNat))
          (queueOf s.1))).reverse s t) t)
      (fun _ _ => False) s := by
  have hle' := UInt64.le_iff_toNat_le.mp hle
  unfold HttpLruCacheStrategy.makeSpace makeSpace
  -- there is room, and the queue has no excess
  by_cases hspace : s.1.totalSize + requestSize ≤ s.1.maxSize
  · rw [wp_makeSpaceFor_space hspace]
    have hroom : SizedQueue.size (queueOf s.1) + requestSize.toNat ≤ s.1.maxSize.toNat := by
      rw [UInt64.le_iff_toNat_le, UInt64.toNat_add] at hspace
      rw [size_queueOf, ← hexact.total]
      omega
    rw [excess_eq_zero hroom, oldest_zero]
    exact ⟨rfl, .inl ⟨takes_nil hexact, hahead⟩⟩
  obtain ⟨hexcess, hover⟩ := toNat_excess hexact hfits hspace key
  have hempty : ¬s.1.lruList.values.isEmpty = true := by
    intro hempty
    have hzero : s.1.totalSize.toNat = 0 := by
      rw [hexact.total, List.isEmpty_iff.mp hempty]
      rfl
    omega
  -- the code chooses the oldest items of the queue
  have hchoice := createRemoveLruDataList_eq (s.1.totalSize + requestSize - s.1.maxSize) hexact
    hidle
  rw [if_neg (by rw [hexcess]; unfold excess; rw [size_queueOf, ← hexact.total]; dsimp only; omega),
    hexcess] at hchoice
  rw [wp_makeSpaceFor_some hspace hempty hchoice]
  have hsub : (oldest (excess s.1.maxSize.toNat (queueOf s.1) (key, requestSize.toNat))
      (queueOf s.1)).Sublist (queueOf s.1) := oldest_sublist _ _
  refine wp_mono (wp_removeKeys_takes hpending hahead hexact hidle
    (List.nodup_reverse.mpr ((nodup_keys_queueOf hexact.wf).sublist (hsub.map Prod.fst)))
    fun k hk => ?_) (fun _ t ht => ⟨rfl, ht⟩) fun _ _ he => he
  have hentry := (mem_keys_queueOf hexact.wf).mp
    ((hsub.map Prod.fst).mem (List.mem_reverse.mp hk))
  exact ⟨hentry, hrows k hentry⟩

end EasyHttp.HttpFileCache
