import EasyHttp.Cache.HttpFileCacheTheorems
import EasyHttp.Library.Runs
import EasyHttp.Message.HttpUtilTheorems

/-!
# The readers of cache entries over whole runs

A `System` is a cache with the body streams that are open. A stream is closed once, and
`ResponseBodyStreamFromCache::close` then releases the key it was opened under. Any call may
meet failures of the database and of the file system.

* `CountsReaders`: the count of every entry is the number of open streams of that entry;
* `OwnRelease`: no stream is closed while a later entry of its key is being read, and no entry
  gets more readers than its counter holds;
* `counts_readers`: in runs whose steps are so, the counts are right in every state;
* `stale_release_not_counts`: without that, they are not.
-/

namespace EasyHttp.CacheReaders

open Exec HttpFileCache

/-- An open stream: the key it was opened under and the entry that counts it. -/
structure Reader where
  key : String
  serial : ℕ
deriving DecidableEq

/-- A cache with the data streams that are open on it. -/
structure System where
  cache : HttpFileCache
  readers : List Reader

/-- `createFile` is what others do to the file system, such as writing the body that `put`
moves. -/
inductive Call where
  | getMetadata (key : String)
  | getData (key : String)
  | get (key : String)
  | close (reader : Reader)
  | putMetadata (key : String) (httpCacheMetadata : HttpCacheMetadata)
  | put (key : String) (httpCacheMetadata : HttpCacheMetadata) (path : String)
  | remove (key : String)
  | purge (mayDeleteIfBusy : Bool)
  | createFile (path content : String)

/-- A call with the time it happens at and the failures it meets. -/
structure Action where
  call : Call
  nowAtEpoch : Int64 := 0
  faults : Faults := {}

/-- The faults of the action are those of the disk. -/
def start (cache : HttpFileCache) (action : Action) : HttpFileCache :=
  { cache with disk := { cache.disk with
    nowAtEpoch := action.nowAtEpoch
    faults := action.faults } }

/-- The stream that a call answered with is open from now on. -/
def open_ {α : Type} (key : String) (streamOf : α → CacheStream) (readers : List Reader) :
    Except CacheException (Option α) → List Reader
  | .ok (some a) => ⟨key, (streamOf a).serial⟩ :: readers
  | _ => readers

/-- Only an open stream can be closed. -/
def step (json : PocoJson) (s : System) (action : Action) : Option System :=
  let cache := start s.cache action
  match action.call with
  | .getMetadata key => some { s with cache := (exec (getMetadata json key) cache).2 }
  | .getData key =>
    let (r, cache) := exec (getData key) cache
    some ⟨cache, open_ key id s.readers r⟩
  | .get key =>
    let (r, cache) := exec (get json key) cache
    some ⟨cache, open_ key Prod.snd s.readers r⟩
  | .close reader =>
    if reader ∈ s.readers then
      some ⟨(exec (releaseData reader.key) cache).2, s.readers.erase reader⟩
    else none
  | .putMetadata key httpCacheMetadata =>
    some { s with cache := (exec (putMetadata json key httpCacheMetadata) cache).2 }
  | .put key httpCacheMetadata path =>
    some { s with cache := (exec (put json key httpCacheMetadata path) cache).2 }
  | .remove key => some { s with cache := (exec (remove key) cache).2 }
  | .purge mayDeleteIfBusy => some { s with cache := (exec (purge mayDeleteIfBusy) cache).2 }
  | .createFile path content => some { s with cache := { cache with
      disk := { cache.disk with files := cache.disk.files.set path content } } }

/-- A cache that has just been constructed over a disk. -/
def System.init (cacheRootDir : String) (maxSize : UInt64) (disk : Disk) : System :=
  ⟨HttpFileCache.construct cacheRootDir maxSize disk, []⟩

/-- The entries of the LRU cache. -/
def System.infos (s : System) : List HttpCacheInfo := s.cache.lruCacheStrategy.lruList.values

/-- How many open streams were opened from this very entry. -/
def System.readersOf (s : System) (info : HttpCacheInfo) : ℕ :=
  s.readers.count ⟨info.key, info.serial⟩

/-- The counter of an entry is the number of its open streams. -/
def CountsReaders (s : System) : Prop :=
  ∀ info ∈ s.infos, info.dataRefCount.toNat = s.readersOf info

instance (s : System) : Decidable (CountsReaders s) := inferInstanceAs (Decidable (∀ _ ∈ _, _))

/-- The step is not the close of a stream while a later entry of its key is being read, nor the
opening of more streams of one entry than its counter holds. -/
def OwnRelease (s : System) (action : Action) : Prop :=
  ∀ info ∈ s.infos, match action.call with
    | .close reader => info.key = reader.key → info.serial = reader.serial ∨ s.readersOf info = 0
    | .getData key | .get key => info.key = key → s.readersOf info + 1 < 2 ^ 32
    | _ => True

instance (s : System) (action : Action) : Decidable (OwnRelease s action) := by
  unfold OwnRelease
  cases action.call <;> infer_instance

/-! ## The law of the counts -/

/-- The counts, over what is listed under each key. -/
def Counted (entry : String → Option HttpCacheInfo) (readers : List Reader) : Prop :=
  ∀ k info, entry k = some info → info.dataRefCount.toNat = readers.count ⟨k, info.serial⟩

/-- What holds in every state of a run in which each stream is released once. -/
structure Inv (s : System) : Prop where
  valid : s.cache.Valid
  serial_lt : ∀ reader ∈ s.readers, reader.serial < s.cache.nextSerial
  counted : Counted s.cache.entry s.readers

variable {json : PocoJson} {s s' : System} {c : HttpFileCache} {action : Action}
  {key k : String} {info : HttpCacheInfo} {readers : List Reader}

/-- The entries are what is found under the keys. -/
theorem mem_infos_iff (hs : s.cache.Valid) :
    info ∈ s.infos ↔ s.cache.entry info.key = some info := by
  unfold System.infos HttpFileCache.entry
  rw [hs.wf.entry_eq_some_iff]
  exact ⟨fun h => ⟨h, rfl⟩, And.left⟩

theorem Inv.countsReaders (h : Inv s) : CountsReaders s :=
  fun info hinfo => h.counted info.key info ((mem_infos_iff h.valid).mp hinfo)

/-- A listed entry stands under its own key. -/
theorem mem_infos_of_entry (hs : s.cache.Valid) (hentry : s.cache.entry k = some info) :
    info ∈ s.infos ∧ info.key = k := hs.wf.entry_eq_some_iff.mp hentry

/-- No open stream belongs to an entry that is yet to come. -/
theorem count_eq_zero {n : ℕ} (hlt : ∀ reader ∈ readers, reader.serial < n)
    (hn : n ≤ info.serial) : readers.count ⟨k, info.serial⟩ = 0 := by
  rw [List.count_eq_zero]
  intro hmem
  have hserial := hlt _ hmem
  dsimp only at hserial
  omega

/-- Calls that keep the readers keep the law. -/
theorem inv_of_keep {c₀ : HttpFileCache} (hvalid : c₀.Valid)
    (hlt : ∀ reader ∈ readers, reader.serial < c₀.nextSerial)
    (hcounted : Counted c₀.entry readers) (hkeep : Keep [] c₀ c) : Inv ⟨c, readers⟩ := by
  obtain ⟨hc, hle, hkept⟩ := hkeep hvalid fun _ hmem => absurd hmem List.not_mem_nil
  refine ⟨hc, fun reader hreader => Nat.lt_of_lt_of_le (hlt reader hreader) hle, ?_⟩
  intro k info' hinfo'
  rcases hkept k info' hinfo' with ⟨info, hinfo, hserial, hcount⟩ | ⟨hnew, hzero⟩
  · rw [← hcount, ← hserial]
    exact hcounted k info (hinfo.resolve_right List.not_mem_nil)
  · rw [hzero, count_eq_zero hlt hnew]
    rfl

theorem Inv.keep (h : Inv s) (hkeep : Keep [] s.cache c) : Inv ⟨c, s.readers⟩ :=
  inv_of_keep h.valid h.serial_lt h.counted hkeep

/-- The time and the failures to come are no part of what is listed. -/
theorem Inv.start (h : Inv s) (action : Action) : Inv ⟨start s.cache action, s.readers⟩ :=
  h.keep (keep_of_eq rfl rfl)

/-- A reference counted up, below the largest number. -/
theorem toNat_addDataRef (h : info.dataRefCount.toNat + 1 < 2 ^ 32) :
    info.addDataRef.dataRefCount.toNat = info.dataRefCount.toNat + 1 := by
  show (info.dataRefCount + 1).toNat = _
  rw [UInt32.toNat_add]
  exact Nat.mod_eq_of_lt h

/-- A reference counted down, above 0. -/
theorem toNat_releaseDataRef (h : info.dataRefCount ≠ 0) :
    info.releaseDataRef.dataRefCount.toNat + 1 = info.dataRefCount.toNat := by
  have hpos : info.dataRefCount.toNat ≠ 0 := fun hzero => h (UInt32.toNat_inj.mp hzero)
  have hlt := info.dataRefCount.toNat_lt
  unfold HttpCacheInfo.releaseDataRef
  rw [if_neg h]
  show (info.dataRefCount - 1).toNat + 1 = _
  rw [UInt32.toNat_sub]
  show (2 ^ 32 - 1 + _) % 2 ^ 32 + 1 = _
  omega

theorem serial_releaseDataRef : info.releaseDataRef.serial = info.serial := by
  unfold HttpCacheInfo.releaseDataRef
  split <;> rfl

/-- An opened stream is counted in its entry, and in no other. -/
theorem Inv.opened (h : Inv s) {serial : ℕ}
    (hroom : ∀ info, s.cache.entry key = some info → s.readersOf info + 1 < 2 ^ 32)
    (hopened : Opened key serial s.cache c) : Inv ⟨c, ⟨key, serial⟩ :: s.readers⟩ := by
  obtain ⟨u, info, hkeep, hlisted, rfl, hnext, hpush⟩ := hopened
  have hu : Inv ⟨u, s.readers⟩ := h.keep hkeep
  obtain ⟨hwf, hentry⟩ := hpush hu.valid
  have hinfo_lt : info.serial < u.nextSerial := hu.valid.serial_lt key info hlisted
  -- an entry counts its streams
  have hcount : info.dataRefCount.toNat = s.readers.count ⟨key, info.serial⟩ :=
    hu.counted key info hlisted
  have hlt : info.dataRefCount.toNat + 1 < 2 ^ 32 := by
    -- the entry is one of `s`, or new and without readers
    obtain ⟨-, -, hkept⟩ := hkeep h.valid fun _ hmem => absurd hmem List.not_mem_nil
    rcases hkept key info hlisted with ⟨old, hold, hserial, -⟩ | ⟨-, hzero⟩
    · have hold := hold.resolve_right List.not_mem_nil
      have hr := hroom old hold
      unfold System.readersOf at hr
      rw [(mem_infos_of_entry h.valid hold).2, hserial] at hr
      omega
    · rw [hzero]
      decide
  refine ⟨⟨hwf, ?_⟩, ?_, ?_⟩
  · intro k i hi
    show i.serial < c.nextSerial
    rw [hnext]
    rw [hentry] at hi
    -- the entry that was opened has one stream more
    by_cases hk : k = key
    · rw [hk, Function.update_self] at hi
      cases hi
      exact hinfo_lt
    · rw [Function.update_of_ne hk] at hi
      exact hu.valid.serial_lt k i hi
  · intro reader hreader
    show reader.serial < c.nextSerial
    rw [hnext]
    rcases List.mem_cons.mp hreader with rfl | hold
    · exact hinfo_lt
    · exact hu.serial_lt reader hold
  · intro k i hi
    change c.entry k = some i at hi
    rw [hentry] at hi
    show _ = (_ :: s.readers).count _
    by_cases hk : k = key
    · subst hk
      rw [Function.update_self] at hi
      cases hi
      rw [toNat_addDataRef hlt, hcount]
      exact List.count_cons_self.symm
    · rw [Function.update_of_ne hk] at hi
      rw [List.count_cons_of_ne fun heq => hk (congrArg Reader.key heq).symm]
      exact hu.counted k i hi

/-- A closed stream is taken from its own entry, or from none that is listed. -/
theorem Inv.closed (h : Inv s) {reader : Reader} (hmem : reader ∈ s.readers)
    (hown : ∀ info, s.cache.entry reader.key = some info →
      info.serial = reader.serial ∨ s.readersOf info = 0) :
    Inv ⟨(exec (releaseData reader.key) s.cache).2, s.readers.erase reader⟩ := by
  have hlt : ∀ r ∈ s.readers.erase reader, r.serial < s.cache.nextSerial :=
    fun r hr => h.serial_lt r (List.mem_of_mem_erase hr)
  -- streams of other entries are as many as before
  have hother : ∀ k serial, (⟨k, serial⟩ : Reader) ≠ reader →
      (s.readers.erase reader).count ⟨k, serial⟩ = s.readers.count ⟨k, serial⟩ :=
    fun k serial hne => List.count_erase_of_ne hne
  by_cases hread : ∃ info, s.cache.entry reader.key = some info ∧ info.dataRefCount ≠ 0
  · obtain ⟨info, hlisted, hnonzero⟩ := hread
    -- the entry counts one stream less, or goes with the last one
    obtain ⟨u, hkeep, hnext, hwf, hentry⟩ := released_releaseData h.valid hlisted hnonzero
    have hcount := h.counted reader.key info hlisted
    have hserial : info.serial = reader.serial := by
      refine (hown info hlisted).resolve_right fun hzero => hnonzero ?_
      unfold System.readersOf at hzero
      rw [(mem_infos_of_entry h.valid hlisted).2, ← hcount] at hzero
      exact UInt32.toNat_inj.mp hzero
    refine inv_of_keep ⟨hwf, ?_⟩ (hnext ▸ hlt) ?_ hkeep
    · intro k i hi
      rw [hnext]
      rw [hentry] at hi
      -- the entry of the stream, or another one
      by_cases hk : k = reader.key
      · rw [hk, Function.update_self] at hi
        cases hi
        rw [serial_releaseDataRef]
        exact h.valid.serial_lt _ info hlisted
      · rw [Function.update_of_ne hk] at hi
        exact h.valid.serial_lt k i hi
    · intro k i hi
      rw [hentry] at hi
      by_cases hk : k = reader.key
      · subst hk
        rw [Function.update_self] at hi
        cases hi
        have hless := toNat_releaseDataRef hnonzero
        have hpos : 0 < s.readers.count reader := List.count_pos_iff.mpr hmem
        rw [hserial] at hcount
        rw [serial_releaseDataRef, hserial]
        show _ = (s.readers.erase reader).count reader
        rw [List.count_erase_self]
        change _ = s.readers.count reader at hcount
        omega
      · rw [Function.update_of_ne hk] at hi
        rw [hother k i.serial fun heq => hk (congrArg Reader.key heq)]
        exact h.counted k i hi
  -- nothing is counted for the stream: its entry is gone
  · have hzero : ∀ info, s.cache.entry reader.key = some info → info.dataRefCount = 0 :=
      fun info hlisted => not_not.mp fun hne => hread ⟨info, hlisted, hne⟩
    refine inv_of_keep h.valid hlt (fun k i hi => ?_) (keep_releaseData hzero)
    rw [h.counted k i hi, hother]
    intro heq
    -- the stream itself would be counted in an entry that nobody reads
    have hcount := h.counted k i hi
    have hk : k = reader.key := congrArg Reader.key heq
    have hz : i.dataRefCount = 0 := hzero i (hk ▸ hi)
    rw [hz, heq] at hcount
    exact absurd hcount.symm (Nat.ne_of_gt (List.count_pos_iff.mpr hmem))

/-! ## Runs -/

/-- A call that may open a stream. -/
theorem Inv.opensOrKeeps {α : Type} {streamOf : α → CacheStream} (h : Inv s)
    (hroom : ∀ info, s.cache.entry key = some info → s.readersOf info + 1 < 2 ^ 32)
    {r : Except CacheException (Option α)}
    (hcases : OpensOrKeeps key streamOf s.cache r c) :
    Inv ⟨c, open_ key streamOf s.readers r⟩ := by
  rcases hcases with ⟨a, rfl, hopened⟩ | ⟨hnone, hkeep⟩
  · exact h.opened hroom hopened
  · have hreaders : open_ key streamOf s.readers r = s.readers := by
      unfold open_
      split
      next a => exact absurd rfl (hnone a)
      next => rfl
    rw [hreaders]
    exact h.keep hkeep

/-- Each step keeps the invariant, if the stream it releases is its own. -/
theorem step_inv (s : System) (action : Action) (s' : System) (h : Inv s)
    (hown : OwnRelease s action) (hstep : step json s action = some s') : Inv s' := by
  have hstart := h.start action
  -- what is listed is listed under its own key
  have howned : ∀ k info, s.cache.entry k = some info → info ∈ s.infos ∧ info.key = k :=
    fun k info hlisted => mem_infos_of_entry h.valid hlisted
  unfold OwnRelease at hown
  unfold step at hstep
  cases hcall : action.call with
  -- a stream is opened by `getData` and `get` and closed by `releaseData`; the other calls leave
  -- the streams
  | getMetadata key =>
    rw [hcall] at hstep
    cases hstep
    exact hstart.keep (keeps_getMetadata key _)
  | getData key =>
    rw [hcall] at hstep hown
    cases hstep
    refine hstart.opensOrKeeps (fun info hlisted => ?_) (getData_cases key hstart.valid)
    exact hown info (howned key info hlisted).1 (howned key info hlisted).2
  | get key =>
    rw [hcall] at hstep hown
    cases hstep
    refine hstart.opensOrKeeps (fun info hlisted => ?_) (get_cases key hstart.valid)
    exact hown info (howned key info hlisted).1 (howned key info hlisted).2
  | close reader =>
    rw [hcall] at hstep hown
    dsimp only at hstep
    -- a stream that is closed twice is the case that the condition leaves out
    by_cases hmem : reader ∈ s.readers
    · rw [if_pos hmem] at hstep
      cases hstep
      refine hstart.closed hmem fun info hlisted => ?_
      exact hown info (howned _ info hlisted).1 (howned _ info hlisted).2
    · rw [if_neg hmem] at hstep
      cases hstep
  | putMetadata key httpCacheMetadata =>
    rw [hcall] at hstep
    cases hstep
    exact hstart.keep (keeps_putMetadata key httpCacheMetadata _)
  | put key httpCacheMetadata path =>
    rw [hcall] at hstep
    cases hstep
    exact hstart.keep (keeps_put key httpCacheMetadata path _)
  | remove key =>
    rw [hcall] at hstep
    cases hstep
    exact hstart.keep (keeps_remove key _)
  | purge mayDeleteIfBusy =>
    rw [hcall] at hstep
    cases hstep
    exact hstart.keep (keeps_purge mayDeleteIfBusy _)
  | createFile path content =>
    rw [hcall] at hstep
    cases hstep
    exact hstart.keep (keep_of_eq rfl rfl)

theorem inv_init (cacheRootDir : String) (maxSize : UInt64) (disk : Disk) :
    Inv (System.init cacheRootDir maxSize disk) where
  valid := ⟨LruCacheByDataSizeStrategy.wf_construct maxSize, fun _ _ h => by cases h⟩
  serial_lt := fun _ h => by cases h
  counted := fun _ _ h => by cases h

/-- In every run from a new cache in which no stream is closed while a later entry of its key is
being read, the count of every entry is the number of open streams of that very entry. -/
theorem counts_readers {cacheRootDir : String} {maxSize : UInt64} {disk : Disk}
    {actions : List Action}
    (hrun : Runs.run (step json) (System.init cacheRootDir maxSize disk) actions = some s)
    (hown : Runs.EveryStep (step json) OwnRelease (System.init cacheRootDir maxSize disk)
      actions) : CountsReaders s :=
  (Runs.run_invariant step_inv (inv_init cacheRootDir maxSize disk) hrun hown).countsReaders

/-! ## Two runs -/

/-- `Poco::JSON` as it prints and reads plain objects. -/
def plainJson : PocoJson := ⟨HttpUtil.jsonStringify, HttpUtil.jsonParse⟩

/-- An empty disk. -/
def emptyDisk : Disk := ⟨SortedMap.empty, SortedMap.empty, 0, {}⟩

/-- The metadata of a response of three bytes. -/
def metadataOf (key : String) : HttpCacheMetadata where
  key := key
  url := "http://host/"
  httpMethod := .get
  statusCode := 200
  statusMessage := "OK"
  responseHeaders := some Headers.empty
  responseBodySize := 3
  sentRequestAtEpoch := 0
  receivedResponseAtEpoch := 0

/-- A body written to a temporary file and put into the cache. -/
def store (key : String) : List Action :=
  [⟨.createFile "/temp/1" "abc", 0, {}⟩, ⟨.put key (metadataOf key) "/temp/1", 0, {}⟩]

/-- An empty cache. -/
def initial : System := System.init "/cache" 10 emptyDisk

/-- Two streams of one entry, one of them closed after a removal was asked for. -/
def removedRun : List Action :=
  store "k" ++ [⟨.getData "k", 0, {}⟩, ⟨.get "k", 0, {}⟩, ⟨.remove "k", 0, {}⟩,
    ⟨.close ⟨"k", 0⟩, 0, {}⟩]

theorem counts_readers_removed : ∃ s ∈ Runs.run (step plainJson) initial removedRun,
    s.infos.map (·.dataRefCount) = [1] ∧ CountsReaders s := by
  have hcount : ∃ s ∈ Runs.run (step plainJson) initial removedRun,
      s.infos.map (·.dataRefCount) = [1] := by decide +kernel
  obtain ⟨s, hrun, hone⟩ := hcount
  exact ⟨s, hrun, hone, counts_readers hrun (by decide +kernel)⟩

/-- An entry is read, purged and stored again, and the new one is read as well; then the stream
of the purged entry is closed. -/
def staleRun : List Action :=
  store "k" ++ [⟨.getData "k", 0, {}⟩, ⟨.purge true, 0, {}⟩] ++ store "k" ++
    [⟨.getData "k", 0, {}⟩, ⟨.close ⟨"k", 0⟩, 0, {}⟩]

/-- It takes the only reader away from the new entry. -/
theorem stale_release_not_counts : ∃ s ∈ Runs.run (step plainJson) initial staleRun,
    s.readers = [⟨"k", 1⟩] ∧ s.infos.map (·.serial) = [1] ∧ ¬CountsReaders s := by
  decide +kernel

end EasyHttp.CacheReaders
