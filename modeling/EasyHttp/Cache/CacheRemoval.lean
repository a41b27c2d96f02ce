import EasyHttp.Cache.FileUtilTheorems
import EasyHttp.Cache.HttpFileCacheTheorems
import EasyHttp.Cache.LruCapacity

/-!
# What a removal takes away

An entry of the cache is stored in three places: the list, the rows and the files. As long as
the file operations work, a removal takes all three or none.

* `stored`: what is stored for a key, in the three places;
* `Trims`: what is stored for each key is as before, or gone;
* `wp_remove_base`, `wp_makeSpaceFor_each`, `wp_makeSpaceFor_idle`, `wp_clear`: the operations of
  the list, with the cache as its listener.
-/

namespace EasyHttp.HttpFileCache

open Exec LruCacheByDataSizeStrategy LruOperations LruCapacity

/-- The list and the disk. -/
abbrev Stores := LruCacheByDataSizeStrategy HttpCacheInfo × Disk

/-- Each key has its own file. -/
theorem makeCachedFilename_injective (cacheRootDir : String) :
    Function.Injective (makeCachedFilename cacheRootDir) := by
  intro k k' h
  unfold makeCachedFilename at h
  have hlist := congrArg String.toList h
  rw [String.toList_append, String.toList_append (s := cacheRootDir ++ "/" ++ k')] at hlist
  have hkey := List.append_cancel_right hlist
  rw [String.toList_append, String.toList_append (t := k')] at hkey
  exact String.toList_injective (List.append_cancel_left hkey)

section
variable (cacheRootDir : String)

/-- What is stored for a key: its entry, its row and its file. -/
def stored (s : Stores) (key : String) : Option HttpCacheInfo × Option Row × Option String :=
  (s.1.entry key, s.2.row key, s.2.file (makeCachedFilename cacheRootDir key))

/-- What is stored for each key is as before, or it is gone and `may` allows it to be. -/
structure Trims (may : String → HttpCacheInfo → Prop) (s t : Stores) : Prop where
  wf : t.1.Wf
  exact_total : Exact s.1 → Exact t.1 ∧ t.1.totalSize.toNat ≤ s.1.totalSize.toNat
  maxSize_eq : t.1.maxSize = s.1.maxSize
  later : Disk.Later s.2 t.2
  each : ∀ k, stored cacheRootDir t k = stored cacheRootDir s k ∨
    stored cacheRootDir t k = (none, none, none) ∧ ∃ info, s.1.entry k = some info ∧ may k info
  others : ∀ p, (∀ k, p ≠ makeCachedFilename cacheRootDir k) → t.2.file p = s.2.file p

end

variable {cacheRootDir : String} {may may' : String → HttpCacheInfo → Prop} {s t u : Stores}
  {key k : String} {info : HttpCacheInfo} {it : ℕ}

/-- Nothing needs to leave. -/
theorem trims_refl (hwf : s.1.Wf) : Trims cacheRootDir may s s where
  wf := hwf
  exact_total := fun h => ⟨h, Nat.le_refl _⟩
  maxSize_eq := rfl
  later := refl_of _ s.2
  each := fun _ => .inl rfl
  others := fun _ _ => rfl

theorem Trims.trans (hst : Trims cacheRootDir may s t) (htu : Trims cacheRootDir may t u) :
    Trims cacheRootDir may s u where
  wf := htu.wf
  exact_total := by
    intro h
    obtain ⟨ht, hle⟩ := hst.exact_total h
    obtain ⟨hu, hle'⟩ := htu.exact_total ht
    exact ⟨hu, Nat.le_trans hle' hle⟩
  maxSize_eq := htu.maxSize_eq.trans hst.maxSize_eq
  later := trans_of _ hst.later htu.later
  each := by
    intro k
    rcases htu.each k with hsame | ⟨hgone, info, hentry, hmay⟩
    · rw [hsame]
      exact hst.each k
    · rcases hst.each k with hsame | ⟨hgone', -⟩
      · refine .inr ⟨hgone, info, ?_, hmay⟩
        rw [← hentry]
        exact (congrArg Prod.fst hsame).symm
      · have hnone : t.1.entry k = none := congrArg Prod.fst hgone'
        rw [hnone] at hentry
        cases hentry
  others := fun p hp => (htu.others p hp).trans (hst.others p hp)

theorem Trims.mono (h : Trims cacheRootDir may s t)
    (hmay : ∀ k info, s.1.entry k = some info → may k info → may' k info) :
    Trims cacheRootDir may' s t :=
  ⟨h.wf, h.exact_total, h.maxSize_eq, h.later, fun k => (h.each k).imp_right fun hgone =>
    ⟨hgone.1, hgone.2.imp fun info hinfo => ⟨hinfo.1, hmay k info hinfo.1 hinfo.2⟩⟩, h.others⟩

/-- An entry that is left is the one that was there, and its row and file are. -/
theorem Trims.stored_eq (h : Trims cacheRootDir may s t) (hentry : t.1.entry k = some info) :
    stored cacheRootDir t k = stored cacheRootDir s k := by
  refine (h.each k).resolve_right fun hgone => ?_
  have hnone : t.1.entry k = none := congrArg Prod.fst hgone.1
  rw [hnone] at hentry
  cases hentry

/-- An entry that stayed is as it was. -/
theorem Trims.entry_of_entry (h : Trims cacheRootDir may s t)
    (hentry : t.1.entry k = some info) : s.1.entry k = some info :=
  (congrArg Prod.fst (h.stored_eq hentry)).symm.trans hentry

/-- Nothing but the failures to come is changed. -/
theorem trims_of_same (hwf : s.1.Wf) (hlist : t.1 = s.1) (hdisk : Disk.Later s.2 t.2)
    (hrow : t.2.row = s.2.row) (hfile : t.2.file = s.2.file) : Trims cacheRootDir may s t where
  wf := hlist ▸ hwf
  exact_total := by
    intro h
    rw [hlist]
    exact ⟨h, Nat.le_refl _⟩
  maxSize_eq := by rw [hlist]
  later := hdisk
  each := by
    intro k
    unfold stored
    rw [hlist, hrow, hfile]
    exact .inl rfl
  others := fun p _ => congrFun hfile p

/-! ## One removal -/

/-- The database was found corrupted. -/
def CorruptFound (disk : Disk) (e : CacheException) : Prop :=
  (∃ message, e = .sql (.databaseCorrupt message)) ∧ Fault.corrupt ∈ disk.faults.database

/-- The row and the file of the key are gone, or the removal is refused and nothing is. -/
theorem wp_onRemove {disk : Disk} (hfiles : disk.FilesWork) (key : String) :
    wp (onRemove cacheRootDir key)
      (fun ret d => Disk.Later disk d ∧
        (disk.faults.database.headD .none = .none → (disk.row key).isSome → ret = true) ∧
        if ret then d.row = Function.update disk.row key none ∧
          d.file = Function.update disk.file (makeCachedFilename cacheRootDir key) none
        else d.row = disk.row ∧ d.file = disk.file)
      (fun e d => Disk.Same disk d ∧ CorruptFound disk e ∧
        disk.faults.database.headD .none ≠ .none) disk := by
  unfold onRemove
  rw [wp_bind, wp_tryCatch]
  refine wp_mono (wp_deleteMetadata disk key) (fun deleted d hd => ?_) fun e d he => ?_
  -- the row has been deleted, and the file goes after it
  · obtain ⟨hlater, hfile, rfl, hrow, -⟩ := hd
    have hfile : d.file = disk.file := congrArg SortedMap.find? hfile
    cases hfound : disk.row key with
    | none =>
      refine ⟨hlater, fun _ h => ?_, ?_, hfile⟩
      · rw [Option.isSome_none] at h
        exact absurd h Bool.false_ne_true
      · rw [hrow, ← hfound, Function.update_eq_self]
    | some row =>
      show wp (FileUtil.removeFileIfPresent _) _ _ d
      refine wp_mono (wp_removeFileIfPresent d _) (fun ret d' hd' => ?_) fun _ _ he => he.elim
      obtain ⟨hlater', hrows, hret, hfile'⟩ := hd'
      have htrue := hret (hlater.filesWork hfiles)
      subst htrue
      refine ⟨trans_of _ hlater hlater', fun _ _ => rfl, ?_, ?_⟩
      · exact (congrArg SortedMap.find? hrows).trans hrow
      · rcases hfile' with h | ⟨h, -⟩
        · rw [h, hfile]
        · cases h
  -- the database has thrown, and nothing is changed
  · obtain ⟨hsame, hfails, hhead⟩ := he
    rcases hfails with ⟨⟨message, rfl⟩, hmem⟩ | ⟨⟨message, rfl⟩, -⟩
    · exact ⟨hsame, ⟨⟨message, rfl⟩, hmem⟩, hhead⟩
    · exact ⟨hsame.1, fun h => absurd h hhead, hsame.row, hsame.file⟩

/-- What is stored after the row and the file of a listed key are gone. -/
theorem trims_drop (hwf : s.1.Wf) (hentry : s.1.entry key = some info) (hmay : may key info)
    {d : Disk} (hlater : Disk.Later s.2 d) (hrow : d.row = Function.update s.2.row key none)
    (hfile : d.file = Function.update s.2.file (makeCachedFilename cacheRootDir key) none) :
    Trims cacheRootDir may s (s.1.drop key, d) ∧
      stored cacheRootDir (s.1.drop key, d) key = (none, none, none) := by
  have hgone : stored cacheRootDir (s.1.drop key, d) key = (none, none, none) := by
    unfold stored
    rw [hwf.entry_drop, hrow, hfile, Function.update_self, Function.update_self,
      Function.update_self]
  refine ⟨⟨hwf.wf_drop, fun h => ⟨h.drop, ?_⟩, maxSize_drop key, hlater, fun k => ?_,
    fun p hp => ?_⟩, hgone⟩
  · have htotal := h.toNat_drop key
    dsimp only
    omega
  · by_cases hk : k = key
    · subst hk
      exact .inr ⟨hgone, info, hentry, hmay⟩
    · left
      unfold stored
      rw [hwf.entry_drop, hrow, hfile, Function.update_of_ne hk, Function.update_of_ne hk,
        Function.update_of_ne fun h => hk (makeCachedFilename_injective _ h)]
  · show d.file p = s.2.file p
    rw [hfile, Function.update_of_ne (hp key)]

/-- `LruCacheByDataSizeStrategy::remove` with the cache as the listener. -/
theorem wp_remove_base (hwf : s.1.Wf) (hfiles : s.2.FilesWork) (key : String) :
    wp (LruCacheByDataSizeStrategy.remove (listener cacheRootDir) key)
      (fun ret t => Trims cacheRootDir (fun k _ => k = key) s t ∧
        (ret = true → stored cacheRootDir t key = (none, none, none)) ∧
        (ret = false → t.1 = s.1) ∧
        (s.2.faults.database.headD .none = .none → (s.1.entry key).isSome →
          (s.2.row key).isSome → ret = true))
      (fun e t => Trims cacheRootDir (fun k _ => k = key) s t ∧ CorruptFound s.2 e ∧
        s.2.faults.database.headD .none ≠ .none) s := by
  cases hfind : s.1.find key with
  | none =>
    unfold LruCacheByDataSizeStrategy.remove
    rw [wp_bind, wp_getState, hfind]
    refine ⟨trims_refl hwf, nofun, fun _ => rfl, fun _ h => ?_⟩
    rw [entry_eq_none_iff.mpr hfind] at h
    exact absurd h Bool.false_ne_true
  | some found =>
    obtain ⟨it, info⟩ := found
    have hentry := entry_of_find hfind
    rw [wp_remove hfind]
    refine wp_mono (wp_onRemove hfiles key) (fun ret d hd => ?_) fun e d hd => ?_
    · obtain ⟨hlater, hanswer, hd⟩ := hd
      cases ret with
      | true =>
        obtain ⟨htrims, hgone⟩ : Trims cacheRootDir (fun k _ => k = key) s (s.1.drop key, d) ∧
            stored cacheRootDir (s.1.drop key, d) key = (none, none, none) :=
          trims_drop hwf hentry rfl hlater hd.1 hd.2
        exact ⟨htrims, fun _ => hgone, nofun, fun _ _ _ => rfl⟩
      | false =>
        refine ⟨trims_of_same hwf rfl hlater hd.1 hd.2, nofun, fun _ => rfl, fun hhead _ hrow => ?_⟩
        exact absurd (hanswer hhead hrow) Bool.false_ne_true
    · exact ⟨trims_of_same hwf rfl hd.1.1 hd.1.row hd.1.file, hd.2⟩

/-! ## Many removals -/

theorem CorruptFound.mono {disk disk' : Disk} {e : CacheException} (hlater : Disk.Later disk disk')
    (h : CorruptFound disk' e) : CorruptFound disk e := ⟨h.1, hlater.mem_database h.2⟩

/-- An entry that nobody reads, or none. -/
def IsIdle (lru : LruCacheByDataSizeStrategy HttpCacheInfo) (key : String) : Prop :=
  ∀ info, lru.entry key = some info → info.dataRefCount = 0

/-- No entry becomes busy. -/
theorem Trims.isIdle (h : Trims cacheRootDir may s t) (hidle : IsIdle s.1 key) :
    IsIdle t.1 key := fun info hentry => hidle info (h.entry_of_entry hentry)

/-- The removal of an entry that nobody reads is that of the base class. -/
theorem exec_remove_idle {listener : LruListener CacheException Disk HttpCacheInfo}
    (hidle : IsIdle s.1 key) :
    exec (HttpLruCacheStrategy.remove listener key) s =
      exec (LruCacheByDataSizeStrategy.remove listener key) s := by
  cases hfind : s.1.find key with
  | none =>
    unfold HttpLruCacheStrategy.remove LruCacheByDataSizeStrategy.remove
    rw [exec_bind_ok (exec_getState s), exec_bind_ok (exec_getState s), hfind]
  | some found =>
    obtain ⟨it, info⟩ := found
    have hzero : decide (info.dataRefCount = 0) = true :=
      decide_eq_true (hidle info (entry_of_find hfind))
    exact (evicts_http listener).remove s key it info hfind hzero

/-- An entry that nobody reads is removed with its row and its file. -/
theorem wp_remove_idle (hwf : s.1.Wf) (hfiles : s.2.FilesWork) (hidle : IsIdle s.1 key) :
    wp (HttpLruCacheStrategy.remove (listener cacheRootDir) key)
      (fun ret t => Trims cacheRootDir (fun k _ => k = key) s t ∧
        (ret = true → stored cacheRootDir t key = (none, none, none)) ∧
        (ret = false → t.1 = s.1) ∧
        (s.2.faults.database.headD .none = .none → (s.1.entry key).isSome →
          (s.2.row key).isSome → ret = true))
      (fun e t => Trims cacheRootDir (fun k _ => k = key) s t ∧ CorruptFound s.2 e ∧
        s.2.faults.database.headD .none ≠ .none) s := by
  unfold wp
  rw [exec_remove_idle hidle]
  exact wp_remove_base hwf hfiles key

/-- What `makeSpace` may remove. -/
def Evictable (updatedKey : String) (key : String) (info : HttpCacheInfo) : Prop :=
  info.dataRefCount = 0 ∧ (updatedKey = "" ∨ updatedKey ≠ key)

/-- The keys of the objects that were chosen. -/
theorem mem_of_removeLruDataLoop {removable : HttpCacheInfo → Bool} {removeSize targetSize : UInt64}
    {infos : List HttpCacheInfo} {keys keys' : List String}
    (h : removeLruDataLoop removable removeSize infos targetSize keys = some keys')
    (hkey : key ∈ keys') :
    key ∈ keys ∨ ∃ info ∈ infos, removable info = true ∧ info.key = key := by
  -- induction on the list, with what has been collected
  induction infos generalizing targetSize keys with
  | nil =>
    unfold removeLruDataLoop at h
    split at h
    · cases h
    · cases h
      exact .inl hkey
  | cons info infos ih =>
    unfold removeLruDataLoop at h
    have hrest : ∀ {targetSize keys},
        removeLruDataLoop removable removeSize infos targetSize keys = some keys' →
        key ∈ keys ∨ ∃ i ∈ info :: infos, removable i = true ∧ i.key = key := by
      intro targetSize keys h
      refine (ih h).imp_right fun hmem => ?_
      obtain ⟨i, hi, hir⟩ := hmem
      exact ⟨i, List.mem_cons_of_mem info hi, hir⟩
    -- the entry is needed and may go, or it is passed over
    by_cases hlt : targetSize < removeSize
    · rw [if_pos hlt] at h
      by_cases hremovable : removable info = true
      · rw [if_pos hremovable] at h
        rcases hrest h with hin | hmem
        · rcases List.mem_cons.mp hin with rfl | hin
          · exact .inr ⟨info, List.mem_cons_self, hremovable, rfl⟩
          · exact .inl hin
        · exact .inr hmem
      · rw [if_neg hremovable] at h
        exact hrest h
    · rw [if_neg hlt] at h
      cases h
      exact .inl hkey

/-- What each removal of an entry that nobody reads keeps is kept by `makeSpace`. -/
theorem wp_makeSpaceFor_each {I : Stores → Prop} {E : CacheException → Stores → Prop}
    {updatedKey : String} (hwf : s.1.Wf) (requestSize : UInt64)
    (hremove : ∀ key info t, s.1.entry key = some info → info.dataRefCount = 0 →
      (updatedKey = "" ∨ updatedKey ≠ key) → I t →
      wp (HttpLruCacheStrategy.remove (listener cacheRootDir) key) (fun _ u => I u) E t)
    (hs : I s) :
    wp (makeSpaceFor (HttpLruCacheStrategy.virtuals (listener cacheRootDir)) requestSize updatedKey)
      (fun _ t => I t) E s := by
  by_cases hspace : s.1.totalSize + requestSize ≤ s.1.maxSize
  · exact (wp_makeSpaceFor_space hspace).mpr hs
  by_cases hempty : s.1.lruList.values.isEmpty = true
  · exact (wp_makeSpaceFor_empty hspace hempty).mpr hs
  -- the keys are chosen before the loop, and removed one by one
  cases hkeys : (HttpLruCacheStrategy.virtuals (listener cacheRootDir)).createRemoveLruDataList s.1
      (s.1.totalSize + requestSize - s.1.maxSize) with
  | none => exact (wp_makeSpaceFor_none hspace hempty hkeys).mpr hs
  | some keys =>
    rw [wp_makeSpaceFor_some hspace hempty hkeys]
    refine wp_forEach (I := fun rest t => I t ∧ ∀ key ∈ rest, key ∈ keys)
      (fun key rest t ht => ?_) (⟨hs, fun _ hkey => hkey⟩ : _ ∧ _) |> fun h =>
        wp_mono h (fun _ _ hu => hu.1) fun _ _ he => he
    obtain ⟨ht, hrest⟩ := ht
    have htail : ∀ k ∈ rest, k ∈ keys := fun k hk => hrest k (List.mem_cons_of_mem key hk)
    unfold removeKey
    -- the key to be updated is left alone
    by_cases hask : updatedKey = "" ∨ updatedKey ≠ key
    · rw [if_pos hask, wp_bind]
      -- the chosen entry is the one of its key, and nobody reads it
      obtain ⟨chosen, hmem, hremovable, rfl⟩ :=
        (mem_of_removeLruDataLoop hkeys (hrest key List.mem_cons_self)).resolve_left
          List.not_mem_nil
      have hlisted : s.1.entry chosen.key = some chosen :=
        hwf.entry_eq_some_iff.mpr ⟨List.mem_reverse.mp hmem, rfl⟩
      refine wp_mono (hremove _ chosen t hlisted (by simpa using hremovable) hask ht)
        (fun _ u hu => ⟨hu, htail⟩) fun _ _ he => he
    · rw [if_neg hask, wp_pure]
      exact ⟨ht, htail⟩

/-- To make space only idle entries are removed. -/
theorem wp_makeSpaceFor_idle {updatedKey : String} (hwf : s.1.Wf) (hfiles : s.2.FilesWork)
    (requestSize : UInt64) :
    wp (makeSpaceFor (HttpLruCacheStrategy.virtuals (listener cacheRootDir)) requestSize updatedKey)
      (fun _ t => Trims cacheRootDir (Evictable updatedKey) s t)
      (fun e t => Trims cacheRootDir (Evictable updatedKey) s t ∧ CorruptFound s.2 e) s := by
  refine wp_makeSpaceFor_each (I := fun t => Trims cacheRootDir (Evictable updatedKey) s t) hwf
    requestSize (fun key info t hentry hzero hask hst => ?_) (trims_refl hwf)
  have hidle : IsIdle s.1 key := by
    intro i hi
    rw [hentry] at hi
    cases hi
    exact hzero
  -- only this key may be gone
  have hone : ∀ u, Trims cacheRootDir (fun k _ => k = key) t u →
      Trims cacheRootDir (Evictable updatedKey) s u := by
    intro u htu
    refine hst.trans (htu.mono fun k i hi hk => ?_)
    subst hk
    exact ⟨hst.isIdle hidle i hi, hask⟩
  exact wp_mono (wp_remove_idle hst.wf (hst.later.filesWork hfiles) (hst.isIdle hidle))
    (fun _ u hu => hone u hu.1) fun e u hu => ⟨hone u hu.1, hu.2.1.mono hst.later⟩

theorem Trims.gone (h : Trims cacheRootDir may s t) (hgone : s.1.entry k = none) :
    t.1.entry k = none := by
  rcases h.each k with hsame | ⟨hnone, -⟩
  · exact (congrArg Prod.fst hsame).trans hgone
  · exact congrArg Prod.fst hnone

/-- The loop of `clear` answers true only when each of the keys is gone. -/
theorem wp_clearKeys {keys : List String} (hwf : s.1.Wf) (hfiles : s.2.FilesWork) (ret : Bool) :
    wp (HttpLruCacheStrategy.clearKeys (listener cacheRootDir) keys ret)
      (fun ret' t => Trims cacheRootDir (fun k _ => k ∈ keys) s t ∧
        (ret' = true → ret = true ∧ ∀ k ∈ keys, t.1.entry k = none))
      (fun e t => Trims cacheRootDir (fun k _ => k ∈ keys) s t ∧ CorruptFound s.2 e) s := by
  -- induction on the keys that are left
  induction keys generalizing s ret with
  | nil => exact ⟨trims_refl hwf, fun hret => ⟨hret, fun _ hk => absurd hk List.not_mem_nil⟩⟩
  | cons key keys ih =>
    have hkey : ∀ {t}, Trims cacheRootDir (fun k _ => k = key) s t →
        Trims cacheRootDir (fun k _ => k ∈ key :: keys) s t :=
      fun ht => ht.mono fun k _ _ hk => hk ▸ List.mem_cons_self
    have hkeys : ∀ {t u}, Trims cacheRootDir (fun k _ => k = key) s t →
        Trims cacheRootDir (fun k _ => k ∈ keys) t u →
        Trims cacheRootDir (fun k _ => k ∈ key :: keys) s u :=
      fun ht hu => (hkey ht).trans (hu.mono fun k _ _ hk => List.mem_cons_of_mem key hk)
    unfold HttpLruCacheStrategy.clearKeys
    rw [wp_bind]
    refine wp_mono (wp_remove_base hwf hfiles key) (fun removed t ht => ?_) fun e t ht =>
      ⟨hkey ht.1, ht.2.1⟩
    obtain ⟨hst, hgone, -, -⟩ := ht
    have hfiles' := hst.later.filesWork hfiles
    -- a removal that fails is remembered in the answer
    cases removed with
    | true =>
      refine wp_mono (ih hst.wf hfiles' ret) (fun ret' u hu => ?_) fun e u hu =>
        ⟨hkeys hst hu.1, hu.2.mono hst.later⟩
      refine ⟨hkeys hst hu.1, fun hret' => ⟨(hu.2 hret').1, fun k hk => ?_⟩⟩
      rcases List.mem_cons.mp hk with rfl | hk
      · exact hu.1.gone (congrArg Prod.fst (hgone rfl))
      · exact (hu.2 hret').2 k hk
    | false =>
      refine wp_mono (ih hst.wf hfiles' false) (fun ret' u hu => ?_) fun e u hu =>
        ⟨hkeys hst hu.1, hu.2.mono hst.later⟩
      exact ⟨hkeys hst hu.1, fun hret' => absurd (hu.2 hret').1 Bool.false_ne_true⟩

/-- A `clear` that answers true has removed everything; unless it is forced, entries that are being
read stay. -/
theorem wp_clear (hwf : s.1.Wf) (hfiles : s.2.FilesWork) (mayDeleteIfBusy : Bool) :
    wp (HttpLruCacheStrategy.clear (listener cacheRootDir) mayDeleteIfBusy)
      (fun ret t => Trims cacheRootDir
          (fun _ info => mayDeleteIfBusy = true ∨ info.dataRefCount = 0) s t ∧
        (ret = true → ∀ k, t.1.entry k = none))
      (fun e t => Trims cacheRootDir
        (fun _ info => mayDeleteIfBusy = true ∨ info.dataRefCount = 0) s t ∧ CorruptFound s.2 e)
      s := by
  unfold HttpLruCacheStrategy.clear
  rw [wp_bind, wp_getState]
  rcases hlist : HttpLruCacheStrategy.createRemoveList s.1 mayDeleteIfBusy with ⟨ret, keys⟩
  dsimp only
  unfold HttpLruCacheStrategy.createRemoveList at hlist
  dsimp only at hlist
  -- an entry of one of these keys may go, and if nothing is left out every entry has one of them
  have hkeys : (∀ key ∈ keys, ∀ info, s.1.entry key = some info →
        mayDeleteIfBusy = true ∨ info.dataRefCount = 0) ∧
      (ret = true → ∀ info ∈ s.1.lruList.values, info.key ∈ keys) := by
    -- by force all keys are chosen, otherwise those nobody reads
    by_cases hforced : mayDeleteIfBusy = true
    · rw [if_pos hforced] at hlist
      cases hlist
      exact ⟨fun _ _ _ _ => .inl hforced, fun _ info hinfo => List.mem_map_of_mem hinfo⟩
    · rw [if_neg hforced] at hlist
      cases hlist
      refine ⟨fun key hkey info hentry => .inr ?_, fun hall info hinfo => ?_⟩
      · obtain ⟨chosen, hchosen, rfl⟩ := List.mem_map.mp hkey
        obtain ⟨hmem, hidle⟩ := List.mem_filter.mp hchosen
        have hlisted : s.1.entry chosen.key = some chosen :=
          hwf.entry_eq_some_iff.mpr ⟨hmem, rfl⟩
        rw [hentry] at hlisted
        cases hlisted
        simpa using hidle
      · have hidle := List.all_eq_true.mp hall info hinfo
        exact List.mem_map_of_mem (List.mem_filter.mpr ⟨hinfo, hidle⟩)
  have hmay : ∀ {t}, Trims cacheRootDir (fun k _ => k ∈ keys) s t → Trims cacheRootDir
      (fun _ info => mayDeleteIfBusy = true ∨ info.dataRefCount = 0) s t :=
    fun ht => ht.mono fun k info hentry hk => hkeys.1 k hk info hentry
  refine wp_mono (wp_clearKeys hwf hfiles ret) (fun ret' t ht => ⟨hmay ht.1, fun hret' k => ?_⟩)
    fun e t ht => ⟨hmay ht.1, ht.2⟩
  obtain ⟨hret, hnone⟩ := ht.2 hret'
  -- an entry that is left would have its key among the removed ones
  cases hentry : s.1.entry k with
  | none => exact ht.1.gone hentry
  | some info =>
    obtain ⟨hmem, hkey⟩ := hwf.entry_eq_some_iff.mp hentry
    have hkey : info.key = k := hkey
    exact hnone k (hkey ▸ hkeys.2 hret info hmem)

/-- The sizes of the entries that are being read, when these entries are the same. -/
theorem heldSize_congr {lru lru' : LruCacheByDataSizeStrategy HttpCacheInfo} (hwf : lru.Wf)
    (hwf' : lru'.Wf) (hsame : ∀ k info, info.dataRefCount ≠ 0 →
      (lru'.entry k = some info ↔ lru.entry k = some info)) :
    heldSize (fun info => info.dataRefCount = 0) lru' =
      heldSize (fun info => info.dataRefCount = 0) lru := by
  have hnodup : ∀ {lru : LruCacheByDataSizeStrategy HttpCacheInfo}, lru.Wf →
      (lru.lruList.values.filter fun info => !decide (info.dataRefCount = 0)).Nodup :=
    fun hlru => (List.Nodup.of_map _ (nodup_keys hlru)).filter _
  refine sizes_perm ((List.perm_ext_iff_of_nodup (hnodup hwf') (hnodup hwf)).mpr fun info => ?_)
  rw [List.mem_filter, List.mem_filter]
  refine and_congr_left fun hbusy => ?_
  have hmem : ∀ {lru : LruCacheByDataSizeStrategy HttpCacheInfo}, lru.Wf →
      (info ∈ lru.lruList.values ↔ lru.entry info.key = some info) :=
    fun hlru => by
      rw [hlru.entry_eq_some_iff]
      exact ⟨fun hin => ⟨hin, rfl⟩, And.left⟩
  rw [hmem hwf', hmem hwf]
  exact hsame info.key info (by simpa using hbusy)

/-- The entries that are being read, and so their sizes, are as before. -/
theorem heldSize_trims (hwf : s.1.Wf) (h : Trims cacheRootDir may s t)
    (hmay : ∀ k info, may k info → info.dataRefCount = 0) :
    heldSize (fun info => info.dataRefCount = 0) t.1 =
      heldSize (fun info => info.dataRefCount = 0) s.1 := by
  refine heldSize_congr hwf h.wf fun k info hbusy => ⟨h.entry_of_entry, fun hentry => ?_⟩
  rcases h.each k with hsame | ⟨-, old, hold, hidle⟩
  · exact (congrArg Prod.fst hsame).trans hentry
  · rw [hentry] at hold
    cases hold
    exact absurd (hmay _ _ hidle) hbusy

end EasyHttp.HttpFileCache
