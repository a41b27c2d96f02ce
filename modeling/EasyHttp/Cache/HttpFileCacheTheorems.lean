import EasyHttp.Cache.HttpFileCache
import EasyHttp.Cache.HttpLruCacheStrategyTheorems

/-!
# What a call of `HttpFileCache` does to the readers of its entries

Whatever fails on the way:

* `Keep`: afterwards every entry is one that was there, with its count of readers, or a new one
  that nobody reads; entries may be gone;
* `keeps_putMetadata`, `keeps_put`, `keeps_remove`, `keeps_purge`, `keeps_getMetadata`: these
  calls keep the readers in that sense;
* `getData_cases`, `get_cases`: a call that opens a stream adds one reader to the entry it
  found, and any other keeps the readers;
* `releaseData_cases`: a release takes one reader from the entry listed under the key, if there
  is one that is read.
-/

namespace EasyHttp.HttpFileCache

open Exec HttpCacheInfo

variable {extra : List HttpCacheInfo} {json : PocoJson} {s t u : HttpFileCache} {key k : String}
  {it : ℕ} {info : HttpCacheInfo}

/-- The entry listed under a key. -/
def entry (s : HttpFileCache) (key : String) : Option HttpCacheInfo := s.lruCacheStrategy.entry key

/-- The list is consistent, and no entry has a serial that is still to come. -/
structure Valid (s : HttpFileCache) : Prop where
  wf : s.lruCacheStrategy.Wf
  serial_lt : ∀ k info, s.entry k = some info → info.serial < s.nextSerial

/-- A valid cache stays valid, and each of its entries is an old one or one of `extra`, as far as
readers can tell, or new and not read. -/
def Keep (extra : List HttpCacheInfo) (s t : HttpFileCache) : Prop :=
  s.Valid → (∀ info ∈ extra, info.serial < s.nextSerial) →
    t.Valid ∧ s.nextSerial ≤ t.nextSerial ∧ ∀ k info', t.entry k = some info' →
      (∃ info, (s.entry k = some info ∨ info ∈ extra) ∧ SameReaders info info') ∨
        (s.nextSerial ≤ info'.serial ∧ info'.dataRefCount = 0)

instance : Std.Refl (Keep extra) :=
  ⟨fun _ h _ => ⟨h, Nat.le_refl _, fun _ info' hi => .inl ⟨info', .inl hi, rfl, rfl⟩⟩⟩

instance : IsTrans HttpFileCache (Keep extra) := by
  constructor
  intro s t u hst htu hs hextra
  obtain ⟨ht, hle, hkept⟩ := hst hs hextra
  obtain ⟨hu, hle', hkept'⟩ := htu ht fun info hinfo => Nat.lt_of_lt_of_le (hextra info hinfo) hle
  refine ⟨hu, Nat.le_trans hle hle', fun k i'' hi'' => ?_⟩
  rcases hkept' k i'' hi'' with ⟨i', hi', hsame'⟩ | ⟨hnew, hzero⟩
  · rcases hi' with hlisted | hmem
    · rcases hkept k i' hlisted with ⟨i, hi, hsame⟩ | ⟨hnew, hzero⟩
      · exact .inl ⟨i, hi, hsame.1.trans hsame'.1, hsame.2.trans hsame'.2⟩
      · exact .inr ⟨hsame'.1 ▸ hnew, hsame'.2 ▸ hzero⟩
    · exact .inl ⟨i', .inr hmem, hsame'⟩
  · exact .inr ⟨Nat.le_trans hle hnew, hzero⟩

theorem Keep.mono (h : Keep [] s t) : Keep extra s t := by
  intro hs _
  obtain ⟨ht, hle, hkept⟩ := h hs fun _ hmem => absurd hmem List.not_mem_nil
  refine ⟨ht, hle, fun k i' hi' => (hkept k i' hi').imp_left fun hold => ?_⟩
  obtain ⟨i, hi, hsame⟩ := hold
  exact ⟨i, .inl (hi.resolve_right List.not_mem_nil), hsame⟩

/-! ## Code over the disk and over the list -/

/-- Nothing but the disk and the flag is changed. -/
theorem keep_of_eq (hlru : t.lruCacheStrategy = s.lruCacheStrategy)
    (hserial : t.nextSerial = s.nextSerial) : Keep extra s t := by
  have hentry : t.entry = s.entry := by
    unfold entry
    rw [hlru]
  intro hs _
  refine ⟨⟨hlru ▸ hs.wf, ?_⟩, Nat.le_of_eq hserial.symm, fun k i' hi' => .inl ⟨i', .inl ?_, rfl, rfl⟩⟩
  · rw [hentry, hserial]
    exact hs.serial_lt
  · rwa [hentry] at hi'

theorem keeps_onDisk {α : Type} (x : DiskExec α) : Keeps (Keep extra) (onDisk x) :=
  fun _ => keep_of_eq rfl rfl

/-- What the list keeps the cache keeps. -/
theorem keep_of_list (hlist : HttpLruCacheStrategy.Keep extra (s.lruCacheStrategy, s.disk)
    (t.lruCacheStrategy, t.disk)) (hserial : t.nextSerial = s.nextSerial) : Keep extra s t := by
  intro hs hextra
  obtain ⟨hwf, hkept⟩ := hlist hs.wf
  refine ⟨⟨hwf, fun k i' hi' => ?_⟩, Nat.le_of_eq hserial.symm, fun k i' hi' =>
    .inl (hkept k i' hi')⟩
  obtain ⟨i, hi, hsame⟩ := hkept k i' hi'
  rw [hserial, ← hsame.1]
  rcases hi with hlisted | hmem
  · exact hs.serial_lt k i hlisted
  · exact hextra i hmem

theorem keeps_onLru {α : Type} {x : LruExec CacheException Disk HttpCacheInfo α}
    (hx : Keeps (HttpLruCacheStrategy.Keep extra) x) : Keeps (Keep extra) (onLru x) :=
  fun s => keep_of_list (hx (s.lruCacheStrategy, s.disk)) rfl

theorem keeps_lru {α : Type} {x : LruListener CacheException Disk HttpCacheInfo →
    LruExec CacheException Disk HttpCacheInfo α}
    (hx : ∀ listener, Keeps (HttpLruCacheStrategy.Keep extra) (x listener)) :
    Keeps (Keep extra) (lru x) :=
  keeps_bind keeps_getState fun _ => keeps_onLru (hx _)

/-- An object that is made and perhaps listed is a new entry without readers. -/
theorem keeps_newHttpCacheInfo {β : Type} {dataSize : UInt64} {f : HttpCacheInfo → CacheExec β}
    (hf : ∀ info, info.key = key → Keeps (Keep [info]) (f info)) :
    Keeps (Keep []) (newHttpCacheInfo key dataSize >>= f) := by
  intro s hs _
  have hrun : exec (newHttpCacheInfo key dataSize >>= f) s =
      exec (f { key := key, dataSize := dataSize, serial := s.nextSerial })
        { s with nextSerial := s.nextSerial + 1 } := rfl
  rw [hrun]
  have hs' : Valid { s with nextSerial := s.nextSerial + 1 } :=
    ⟨hs.wf, fun k i hi => Nat.lt_succ_of_lt (hs.serial_lt k i hi)⟩
  have hlt : ∀ info ∈ [({ key := key, dataSize := dataSize, serial := s.nextSerial } :
      HttpCacheInfo)], info.serial < s.nextSerial + 1 := by
    intro info hinfo
    rw [List.mem_singleton.mp hinfo]
    exact Nat.lt_succ_self _
  obtain ⟨ht, hle, hkept⟩ := hf _ rfl { s with nextSerial := s.nextSerial + 1 } hs' hlt
  refine ⟨ht, Nat.le_of_succ_le hle, fun k i' hi' => ?_⟩
  rcases hkept k i' hi' with ⟨i, hi, hsame⟩ | ⟨hnew, hzero⟩
  · rcases hi with hlisted | hmem
    · exact .inl ⟨i, .inl hlisted, hsame⟩
    · rw [List.mem_singleton] at hmem
      subst hmem
      exact .inr ⟨Nat.le_of_eq hsame.1, hsame.2.symm⟩
  · exact .inr ⟨Nat.le_of_succ_le hnew, hzero⟩

/-! ## Start and reset -/

theorem keeps_onEnumerate (key : String) (responseBodySize : UInt64) :
    Keeps (Keep []) (onEnumerate key responseBodySize) := by
  unfold onEnumerate
  refine keeps_bind (keeps_lru fun _ =>
    HttpLruCacheStrategy.keeps_makeSpace HttpLruCacheStrategy.changes_keep _) fun space => ?_
  split
  · refine keeps_newHttpCacheInfo fun info hkey => ?_
    refine keeps_bind (keeps_lru fun _ => ?_) fun _ => keeps_pure true
    exact HttpLruCacheStrategy.keeps_add HttpLruCacheStrategy.changes_keep
      ⟨hkey, List.mem_singleton.mpr rfl⟩
  · exact keeps_pure false

theorem keeps_enumerate : Keeps (Keep []) enumerate := by
  unfold enumerate
  refine keeps_bind (keeps_onDisk _) fun params => keeps_forEach (fun param => ?_) params
  refine keeps_bind (keeps_onDisk _) fun _ => ?_
  exact keeps_bind (keeps_onEnumerate _ _) fun _ => keeps_pure ()

theorem keeps_initializeCache : Keeps (Keep extra) initializeCache := by
  refine Keeps.mono ?_ fun _ _ => Keep.mono
  unfold initializeCache
  refine keeps_bind keeps_getState fun s => ?_
  split
  · refine keeps_bind keeps_getState fun s => keeps_bind (keeps_onDisk _) fun created => ?_
    split
    · refine keeps_bind keeps_enumerate fun _ => ?_
      exact keeps_modifyState fun _ => keep_of_eq rfl rfl
    · exact keeps_pure ()
  · exact keeps_pure ()

theorem keeps_deleteCacheFile : Keeps (Keep extra) deleteCacheFile :=
  keeps_bind (keeps_onDisk _) fun _ => keeps_pure ()

theorem keeps_deleteCorruptedCacheFile : Keeps (Keep extra) deleteCorruptedCacheFile := by
  unfold deleteCorruptedCacheFile
  refine keeps_bind (keeps_modifyState fun _ => keep_of_eq rfl rfl) fun _ => ?_
  refine keeps_bind (keeps_onLru
    (LruCacheByDataSizeStrategy.keeps_reset HttpLruCacheStrategy.changes_keep.toChanges)) fun _ => ?_
  refine keeps_bind keeps_deleteCacheFile fun _ => keeps_bind keeps_getState fun _ => ?_
  refine keeps_bind (keeps_onDisk _) fun paths => keeps_bind keeps_deleteCacheFile fun _ => ?_
  exact keeps_forEach (fun _ => keeps_bind (keeps_onDisk _) fun _ => keeps_pure ()) paths

theorem keeps_catchSql {α : Type} {corrupted failed : CacheExec α}
    (hcorrupted : Keeps (Keep extra) corrupted) (hfailed : Keeps (Keep extra) failed)
    (e : CacheException) : Keeps (Keep extra) (catchSql corrupted failed e) := by
  unfold catchSql
  split
  · exact keeps_bind keeps_deleteCorruptedCacheFile fun _ => hcorrupted
  · exact hfailed
  · exact keeps_throw e

/-! ## Calls that keep the readers -/

theorem keeps_get_entry (key : String) :
    Keeps (Keep extra) (lru (HttpLruCacheStrategy.get · key)) :=
  keeps_lru fun _ => HttpLruCacheStrategy.keeps_get HttpLruCacheStrategy.changes_keep key

theorem keeps_readMetadata (key : String) : Keeps (Keep extra) (readMetadata json key) := by
  unfold readMetadata
  refine keeps_bind (keeps_onDisk _) fun metadata => ?_
  split
  · exact keeps_pure none
  · exact keeps_bind (keeps_onDisk _) fun _ => keeps_pure _

theorem keeps_getMetadata (key : String) : Keeps (Keep extra) (getMetadata json key) := by
  unfold getMetadata
  refine keeps_tryCatch (keeps_bind keeps_initializeCache fun _ => ?_)
    (keeps_catchSql (keeps_pure none) (keeps_pure none))
  refine keeps_bind (keeps_get_entry key) fun found => ?_
  split
  · exact keeps_pure none
  · split
    · exact keeps_pure none
    · exact keeps_readMetadata key

theorem keeps_putMetadata (key : String) (httpCacheMetadata : HttpCacheMetadata) :
    Keeps (Keep extra) (putMetadata json key httpCacheMetadata) := by
  unfold putMetadata
  refine keeps_tryCatch (keeps_bind keeps_initializeCache fun _ => ?_)
    (keeps_catchSql (keeps_pure false) (keeps_pure false))
  refine keeps_bind (keeps_get_entry key) fun found => ?_
  split
  · split
    · exact keeps_pure false
    · exact keeps_bind (keeps_onDisk _) fun _ => keeps_pure true
  · exact keeps_pure false

theorem keeps_removeInternal (key : String) : Keeps (Keep extra) (removeInternal key) :=
  keeps_lru fun _ => HttpLruCacheStrategy.keeps_remove HttpLruCacheStrategy.changes_keep key

theorem keeps_remove (key : String) : Keeps (Keep extra) (remove key) :=
  keeps_tryCatch (keeps_bind keeps_initializeCache fun _ => keeps_removeInternal key)
    (keeps_catchSql (keeps_pure false) (keeps_pure false))

theorem keeps_purge (mayDeleteIfBusy : Bool) : Keeps (Keep extra) (purge mayDeleteIfBusy) := by
  unfold purge
  refine keeps_tryCatch (keeps_bind keeps_initializeCache fun _ => ?_)
    (keeps_catchSql (keeps_pure true) (keeps_pure false))
  refine keeps_bind (keeps_lru fun _ =>
    HttpLruCacheStrategy.keeps_clear HttpLruCacheStrategy.changes_keep _) fun ret => ?_
  split
  · exact keeps_bind keeps_deleteCacheFile fun _ => keeps_pure ret
  · exact keeps_pure ret

theorem keeps_makeRoom (key : String) (responseBodySize : UInt64) :
    Keeps (Keep extra) (makeRoom key responseBodySize) := by
  unfold makeRoom
  refine keeps_tryCatch (keeps_bind keeps_initializeCache fun _ => ?_)
    (keeps_catchSql (keeps_pure true) (keeps_pure false))
  have hspace : Keeps (Keep extra) (lru (HttpLruCacheStrategy.makeSpace · responseBodySize)) :=
    keeps_lru fun _ => HttpLruCacheStrategy.keeps_makeSpace HttpLruCacheStrategy.changes_keep _
  refine keeps_bind (keeps_get_entry key) fun found => ?_
  split
  · split
    · exact keeps_pure false
    · exact keeps_bind (keeps_removeInternal key) fun _ => hspace
  · exact hspace

theorem keeps_storeMetadata (httpCacheMetadata : HttpCacheMetadata) (cacheFile : String) :
    Keeps (Keep extra) (storeMetadata json httpCacheMetadata cacheFile) := by
  have hremove : Keeps (Keep extra) (do
      let _ ← onDisk (FileUtil.removeFileIfPresent cacheFile)
      return false) := keeps_bind (keeps_onDisk _) fun _ => keeps_pure false
  unfold storeMetadata
  refine keeps_tryCatch (keeps_bind keeps_initializeCache fun _ => ?_)
    (keeps_catchSql hremove hremove)
  exact keeps_bind (keeps_onDisk _) fun _ => keeps_pure true

theorem keeps_put (key : String) (httpCacheMetadata : HttpCacheMetadata) (path : String) :
    Keeps (Keep []) (put json key httpCacheMetadata path) := by
  unfold put
  refine keeps_bind (keeps_makeRoom key _) fun room => ?_
  split
  · exact keeps_pure false
  refine keeps_newHttpCacheInfo fun info hkey => keeps_bind keeps_getState fun s => ?_
  refine keeps_bind (keeps_onDisk _) fun moved => ?_
  split
  · exact keeps_pure false
  refine keeps_bind (keeps_storeMetadata httpCacheMetadata _) fun stored => ?_
  split
  · exact keeps_pure false
  refine keeps_bind (keeps_lru fun _ => ?_) fun _ => keeps_pure true
  exact HttpLruCacheStrategy.keeps_update HttpLruCacheStrategy.changes_keep
    ⟨hkey, List.mem_singleton.mpr rfl⟩

/-! ## Calls that open or close a reader -/

/-- `t` is a state in which the entry of `key` with this serial has one more reader than in a
state that kept the readers of `s`. -/
def Opened (key : String) (serial : ℕ) (s t : HttpFileCache) : Prop :=
  ∃ u info, Keep [] s u ∧ u.entry key = some info ∧ info.serial = serial ∧
    t.nextSerial = u.nextSerial ∧ (u.Valid → t.lruCacheStrategy.Wf ∧
      t.entry = Function.update u.entry key (some info.addDataRef))

/-- Only the disk is changed. -/
def SameEntries (s t : HttpFileCache) : Prop :=
  t.lruCacheStrategy = s.lruCacheStrategy ∧ t.nextSerial = s.nextSerial

instance : Std.Refl SameEntries := ⟨fun _ => ⟨rfl, rfl⟩⟩

instance : IsTrans HttpFileCache SameEntries :=
  ⟨fun _ _ _ hst htu => ⟨htu.1.trans hst.1, htu.2.trans hst.2⟩⟩

theorem sameEntries_onDisk {α : Type} (x : DiskExec α) : Keeps SameEntries (onDisk x) :=
  fun _ => ⟨rfl, rfl⟩

theorem sameEntries_createStreamFromCache (key : String) :
    Keeps SameEntries (createStreamFromCache key) :=
  keeps_bind keeps_getState fun _ => sameEntries_onDisk _

theorem sameEntries_readMetadata (key : String) : Keeps SameEntries (readMetadata json key) := by
  unfold readMetadata
  refine keeps_bind (sameEntries_onDisk _) fun metadata => ?_
  split
  · exact keeps_pure none
  · exact keeps_bind (sameEntries_onDisk _) fun _ => keeps_pure _

/-- To leave the entries alone is more. -/
theorem SameEntries.keep (h : SameEntries s t) : Keep extra s t := keep_of_eq h.1 h.2

theorem exec_lru {α : Type} (x : LruListener CacheException Disk HttpCacheInfo →
    LruExec CacheException Disk HttpCacheInfo α) (s : HttpFileCache) :
    exec (lru x) s = exec (onLru (x (listener s.cacheRootDir))) s := by
  unfold lru
  rw [exec_bind_ok (exec_getState s)]

/-- What `get` answers is listed. -/
theorem entry_of_get (hget : exec (lru (HttpLruCacheStrategy.get · key)) s = (.ok (some info), t))
    (hs : s.Valid) : t.entry key = some info ∧ info.key = key := by
  rw [exec_lru, onLru, exec_zoom] at hget
  cases hfind : s.lruCacheStrategy.find key with
  | none =>
    rw [HttpLruCacheStrategy.exec_get_none hfind] at hget
    cases hget
  | some found =>
    obtain ⟨it, listed⟩ := found
    rw [HttpLruCacheStrategy.exec_get (fun _ _ => rfl) hfind] at hget
    cases hget
    refine ⟨?_, (hs.wf.find_eq_some_iff.mp hfind).2⟩
    show (s.lruCacheStrategy.touch key it info).entry key = some info
    rw [hs.wf.entry_touch hfind]
    exact LruCacheByDataSizeStrategy.entry_of_find hfind

/-- An entry written over by one of its size; with the last release of a removal it is removed. -/
theorem exec_lru_update {updated : HttpCacheInfo}
    (hfind : s.lruCacheStrategy.find key = some (it, info))
    (hsize : updated.dataSize = info.dataSize) :
    exec (lru (HttpLruCacheStrategy.update · key updated)) s =
      if updated.dataRefCount = 0 ∧ updated.reservedRemove then
        exec (lru (LruCacheByDataSizeStrategy.remove · key))
          { s with lruCacheStrategy := s.lruCacheStrategy.push key updated }
      else (.ok true, { s with lruCacheStrategy := s.lruCacheStrategy.push key updated }) := by
  rw [exec_lru, exec_lru, onLru, exec_zoom,
    HttpLruCacheStrategy.exec_update_own (fun _ _ => rfl) hfind hsize]
  split <;> rfl

/-- A reader is counted in the entry, and the stream carries its serial. -/
theorem exec_addReader (hfind : s.lruCacheStrategy.find key = some (it, info))
    (hreserved : info.reservedRemove = false) (content : String) :
    exec (addReader key info content) s =
      (.ok (some { content := content, serial := info.serial }),
        { s with lruCacheStrategy := s.lruCacheStrategy.push key info.addDataRef }) := by
  have hlast : ¬(info.addDataRef.dataRefCount = 0 ∧ info.addDataRef.reservedRemove = true) := by
    rintro ⟨-, hres⟩
    exact absurd (hreserved.symm.trans hres) Bool.false_ne_true
  have hupdate := exec_lru_update hfind (show info.addDataRef.dataSize = info.dataSize from rfl)
  rw [if_neg hlast] at hupdate
  unfold addReader
  rw [exec_bind_ok hupdate]
  rfl

/-- Counting a reader of an entry that is listed. -/
theorem opened_addReader (hsu : Keep [] s u) (hentry : u.Valid → u.entry key = some info ∧
    info.key = key) (hreserved : info.reservedRemove = false) (hs : s.Valid) (content : String) :
    ∃ t, exec (addReader key info content) u =
      (.ok (some { content := content, serial := info.serial }), t) ∧
        Opened key info.serial s t := by
  have hu := (hsu hs fun _ hmem => absurd hmem List.not_mem_nil).1
  obtain ⟨hlisted, hkey⟩ := hentry hu
  obtain ⟨it, hfind⟩ := LruCacheByDataSizeStrategy.find_of_entry hlisted
  refine ⟨_, exec_addReader hfind hreserved content, u, info, hsu, hlisted, rfl, rfl, fun hu => ?_⟩
  exact ⟨hu.wf.wf_push hkey, hu.wf.entry_push hkey⟩

/-- A call answers with a stream counted in the entry of `key`, or keeps the readers. -/
def OpensOrKeeps {α : Type} (key : String) (streamOf : α → CacheStream) (s : HttpFileCache)
    (r : Except CacheException (Option α)) (t : HttpFileCache) : Prop :=
  (∃ a, r = .ok (some a) ∧ Opened key (streamOf a).serial s t) ∨
    ((∀ a, r ≠ .ok (some a)) ∧ Keep [] s t)

section
variable {α β : Type} {streamOf : α → CacheStream}

theorem opens_none (hsu : Keep [] s u) : OpensOrKeeps key streamOf s (.ok none) u :=
  .inr ⟨fun _ => nofun, hsu⟩

/-- What comes before the opening keeps the entries. -/
theorem opens_bind {x : CacheExec β} {f : β → CacheExec (Option α)} (hx : Keeps (Keep []) x)
    (hsu : Keep [] s u)
    (hf : ∀ b v, exec x u = (.ok b, v) → Keep [] s v →
      OpensOrKeeps key streamOf s (exec (f b) v).1 (exec (f b) v).2) :
    OpensOrKeeps key streamOf s (exec (x >>= f) u).1 (exec (x >>= f) u).2 := by
  have hstep := hx u
  rcases hrun : exec x u with ⟨r, v⟩
  rw [hrun] at hstep
  cases r with
  | error e =>
    rw [exec_bind_error hrun]
    exact .inr ⟨fun _ => nofun, trans_of _ hsu hstep⟩
  | ok b =>
    rw [exec_bind_ok hrun]
    exact hf b v hrun (trans_of _ hsu hstep)

/-- No `catch` clause answers with a stream. -/
theorem catchSql_ne_some (e : CacheException) (t : HttpFileCache) (a : α) :
    (exec (catchSql (return none) (return none) e) t).1 ≠ .ok (some a) := by
  intro h
  cases e with
  | http e => cases h
  | sql e =>
    cases e with
    | databaseCorrupt message =>
      change (exec (deleteCorruptedCacheFile >>= fun _ => pure none) t).1 = .ok (some a) at h
      rcases hdelete : exec deleteCorruptedCacheFile t with ⟨r, v⟩
      rw [exec_bind, hdelete] at h
      cases r <;> cases h
    | _ => cases h

/-- The `catch` clauses of a call that opens a stream. -/
theorem opens_tryCatch {x : CacheExec (Option α)}
    (hx : OpensOrKeeps key streamOf s (exec x s).1 (exec x s).2) :
    OpensOrKeeps key streamOf s
      (exec (Exec.tryCatch x (catchSql (return none) (return none))) s).1
      (exec (Exec.tryCatch x (catchSql (return none) (return none))) s).2 := by
  rw [exec_tryCatch]
  rcases hrun : exec x s with ⟨r, t⟩
  rw [hrun] at hx
  cases r with
  | ok a => exact hx
  | error e =>
    have hst : Keep [] s t := by
      rcases hx with ⟨a, ha, -⟩ | ⟨-, hkeep⟩
      · exact absurd ha nofun
      · exact hkeep
    exact .inr ⟨catchSql_ne_some e t, trans_of _ hst
      (keeps_catchSql (keeps_pure none) (keeps_pure none) e t)⟩

end

/-- Code over the disk between the lookup of an entry and the count of its reader. -/
theorem opens_bind_disk {α β : Type} {streamOf : α → CacheStream} {x : CacheExec (Option β)}
    {f : Option β → CacheExec (Option α)} (hx : Keeps SameEntries x) (hsu : Keep [] s u)
    (hentry : u.entry key = some info) (hnone : f none = pure none)
    (hf : ∀ b v, Keep [] s v → v.entry key = some info →
      OpensOrKeeps key streamOf s (exec (f (some b)) v).1 (exec (f (some b)) v).2) :
    OpensOrKeeps key streamOf s (exec (x >>= f) u).1 (exec (x >>= f) u).2 := by
  refine opens_bind (hx.mono fun _ _ => SameEntries.keep) hsu fun found v hrun hsv => ?_
  cases found with
  | none =>
    rw [hnone]
    exact opens_none hsv
  | some b =>
    have hsame : SameEntries u v := by
      have hkeeps := hx u
      rwa [hrun] at hkeeps
    refine hf b v hsv ?_
    unfold entry
    rw [hsame.1]
    exact hentry

/-- A call that finds an entry and goes on with it unless its removal is reserved. -/
theorem opens_found {α : Type} {streamOf : α → CacheStream}
    {f : HttpCacheInfo → CacheExec (Option α)} (hs : s.Valid)
    (hf : ∀ info u, Keep [] s u → u.entry key = some info → info.key = key →
      info.reservedRemove = false →
      OpensOrKeeps key streamOf s (exec (f info) u).1 (exec (f info) u).2) :
    let x : CacheExec (Option α) := do
      initializeCache
      match ← lru (HttpLruCacheStrategy.get · key) with
      | none => return none
      | some info =>
        if info.reservedRemove then
          return none
        f info
    OpensOrKeeps key streamOf s (exec x s).1 (exec x s).2 := by
  refine opens_bind keeps_initializeCache (refl_of _ s) fun _ u _ hsu => ?_
  refine opens_bind (keeps_get_entry key) hsu fun found v hget hsv => ?_
  cases found with
  | none => exact opens_none hsv
  | some info =>
    dsimp only
    by_cases hreserved : info.reservedRemove = true
    · rw [if_pos hreserved]
      exact opens_none hsv
    · rw [if_neg hreserved]
      have hu := (hsu hs fun _ hmem => absurd hmem List.not_mem_nil).1
      obtain ⟨hentry, hkey⟩ := entry_of_get hget hu
      exact hf info v hsv hentry hkey (Bool.eq_false_iff.mpr hreserved)

/-- `getData` opens a stream on the entry of its key, or keeps the entries. -/
theorem getData_cases (key : String) (hs : s.Valid) :
    OpensOrKeeps key id s (exec (getData key) s).1 (exec (getData key) s).2 := by
  unfold getData
  apply opens_tryCatch
  refine opens_found hs fun info u hsu hentry hkey hreserved => ?_
  refine opens_bind_disk (sameEntries_createStreamFromCache key) hsu hentry rfl
    fun content v hsv hentry => ?_
  obtain ⟨t, hrun, hopened⟩ := opened_addReader hsv (fun _ => ⟨hentry, hkey⟩) hreserved hs content
  rw [hrun]
  exact .inl ⟨_, rfl, hopened⟩

/-- So does `get`. -/
theorem get_cases (key : String) (hs : s.Valid) :
    OpensOrKeeps key Prod.snd s (exec (get json key) s).1 (exec (get json key) s).2 := by
  unfold get
  apply opens_tryCatch
  refine opens_found hs fun info u hsu hentry hkey hreserved => ?_
  refine opens_bind_disk (sameEntries_readMetadata key) hsu hentry rfl
    fun metadata v hsv hentry => ?_
  refine opens_bind_disk (sameEntries_createStreamFromCache key) hsv hentry rfl
    fun content w hsw hentry => ?_
  obtain ⟨t, hrun, hopened⟩ := opened_addReader hsw (fun _ => ⟨hentry, hkey⟩) hreserved hs content
  rw [exec_bind_ok hrun]
  exact .inl ⟨_, rfl, hopened⟩

/-- The entry of a key with a reader less. -/
def Released (key : String) (info : HttpCacheInfo) (s t : HttpFileCache) : Prop :=
  ∃ u, Keep [] u t ∧ u.nextSerial = s.nextSerial ∧ u.lruCacheStrategy.Wf ∧
    u.entry = Function.update s.entry key (some info.releaseDataRef)

/-- A lookup moves the entry to the front. -/
theorem exec_get_of_find (hfind : s.lruCacheStrategy.find key = some (it, info)) :
    exec (lru (HttpLruCacheStrategy.get · key)) s =
      (.ok (some info), { s with lruCacheStrategy := s.lruCacheStrategy.touch key it info }) := by
  rw [exec_lru, onLru, exec_zoom, HttpLruCacheStrategy.exec_get (fun _ _ => rfl) hfind]

/-- A release without an entry, or of an entry that nobody reads, changes no count. -/
theorem keep_releaseData (h : ∀ info, s.entry key = some info → info.dataRefCount = 0) :
    Keep [] s (exec (releaseData key) s).2 := by
  have hget : Keep [] s (exec (lru (HttpLruCacheStrategy.get · key)) s).2 := keeps_get_entry key s
  unfold releaseData
  cases hfind : s.lruCacheStrategy.find key with
  | none =>
    have hrun : exec (lru (HttpLruCacheStrategy.get · key)) s = (.ok none, s) := by
      rw [exec_lru, onLru, exec_zoom, HttpLruCacheStrategy.exec_get_none hfind]
    rw [exec_bind_ok hrun]
    exact refl_of _ s
  | some found =>
    obtain ⟨it, info⟩ := found
    have hzero := h info (LruCacheByDataSizeStrategy.entry_of_find hfind)
    rw [exec_get_of_find hfind] at hget
    rw [exec_bind_ok (exec_get_of_find hfind)]
    simp only [hzero, if_true]
    exact hget

/-- A release counts the reader off, and ends the entry with its last one if it waits for that. -/
theorem released_releaseData (hs : s.Valid) (hentry : s.entry key = some info)
    (hread : info.dataRefCount ≠ 0) : Released key info s (exec (releaseData key) s).2 := by
  obtain ⟨it, hfind⟩ := LruCacheByDataSizeStrategy.find_of_entry hentry
  have hkey : info.releaseDataRef.key = key := by
    have hkey := (hs.wf.find_eq_some_iff.mp hfind).2
    unfold HttpCacheInfo.releaseDataRef
    split <;> exact hkey
  have hsize : info.releaseDataRef.dataSize = info.dataSize := by
    unfold HttpCacheInfo.releaseDataRef
    split <;> rfl
  -- the list as `get` leaves it, and then with the new object on top
  have hwf := hs.wf.wf_touch hfind
  have htouch : (s.lruCacheStrategy.touch key it info).entry key = some info := by
    rw [hs.wf.entry_touch hfind]
    exact hentry
  obtain ⟨it', hfind'⟩ := LruCacheByDataSizeStrategy.find_of_entry htouch
  refine ⟨{ s with lruCacheStrategy :=
    (s.lruCacheStrategy.touch key it info).push key info.releaseDataRef }, ?_, rfl,
    hwf.wf_push hkey, ?_⟩
  · unfold releaseData
    rw [exec_bind_ok (exec_get_of_find hfind)]
    simp only [hread, if_false]
    -- the size is as before, so `update` makes no room
    have hupdate := exec_lru_update
      (s := { s with lruCacheStrategy := s.lruCacheStrategy.touch key it info }) hfind' hsize
    have hrun : Keep [] { s with lruCacheStrategy :=
        (s.lruCacheStrategy.touch key it info).push key info.releaseDataRef }
        (exec (lru (HttpLruCacheStrategy.update · key info.releaseDataRef))
          { s with lruCacheStrategy := s.lruCacheStrategy.touch key it info }).2 := by
      rw [hupdate]
      split
      · exact keeps_lru (fun _ =>
          HttpLruCacheStrategy.changes_keep.changesFor.keeps_remove_base key) _
      · exact refl_of _ _
    have hdiscard := exec_discard (lru (HttpLruCacheStrategy.update · key info.releaseDataRef))
      () { s with lruCacheStrategy := s.lruCacheStrategy.touch key it info }
    rw [← hdiscard] at hrun
    show Keep [] _ (exec (Exec.tryCatch _ _) _).2
    rw [exec_tryCatch]
    -- what follows does not touch the list
    rcases hbody : exec (lru (HttpLruCacheStrategy.update · key info.releaseDataRef) >>=
      fun _ => pure ()) { s with lruCacheStrategy := s.lruCacheStrategy.touch key it info }
      with ⟨r, v⟩
    rw [hbody] at hrun
    cases r with
    | ok _ => exact hrun
    | error e =>
      exact trans_of _ hrun (keeps_catchSql (keeps_pure ()) (keeps_pure ()) e v)
  · show ((s.lruCacheStrategy.touch key it info).push key info.releaseDataRef).entry = _
    rw [hwf.entry_push hkey, hs.wf.entry_touch hfind]
    rfl

end EasyHttp.HttpFileCache
