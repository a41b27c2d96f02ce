import EasyHttp.Cache.CacheEnumeration
import EasyHttp.Cache.CacheReaders

/-!
# Entries that are removed with their last reader

A removal of an entry that is being read is put off until its last stream is closed. Here no
call meets a failure, no purge is forced, and every stream is closed once.

* `Plain`: the steps of such runs;
* `Spares`: what a call does to the entries that are being read;
* `Refuses`: every call on a key is refused;
* `deferred_removal`: in every such run, the files of entries that are being read stay as they
  are, and an entry whose removal was asked for is refused to everyone until it is gone with its
  last reader.
-/

namespace EasyHttp.DeferredRemoval

open Exec HttpFileCache CacheReaders LruCacheByDataSizeStrategy LruOperations LruCapacity

/-! ## What is to hold -/

/-- A stream has a file descriptor, which is a nonnegative `int`. -/
def maxOpenFiles : ℕ := 2 ^ 31

/-- A step that meets no failure: there is a descriptor for a stream that is opened. What is put
carries its key, and no file of others has the path of a body file. -/
def Plain (s : System) (action : Action) : Prop :=
  action.faults = {} ∧ match action.call with
    | .getData _ | .get _ => s.readers.length < maxOpenFiles
    | .put key httpCacheMetadata path =>
      httpCacheMetadata.key = key ∧ isBodyFile s.cache.cacheRootDir path = false
    | .purge mayDeleteIfBusy => mayDeleteIfBusy = false
    | .createFile path _ => isBodyFile s.cache.cacheRootDir path = false
    | _ => True

/-- Every call that reads or writes the key fails. -/
def Refuses (json : PocoJson) (s : System) (key : String) : Prop :=
  ∀ nowAtEpoch, let cache := start s.cache ⟨.getMetadata key, nowAtEpoch, {}⟩
    (exec (getMetadata json key) cache).1 = .ok none ∧
    (exec (getData key) cache).1 = .ok none ∧
    (exec (HttpFileCache.get json key) cache).1 = .ok none ∧
    ∀ httpCacheMetadata, (exec (putMetadata json key httpCacheMetadata) cache).1 = .ok false ∧
      ∀ path, (exec (put json key httpCacheMetadata path) cache).1 = .ok false

/-- The body file of a key. -/
def bodyFile (s : System) (key : String) : Option String :=
  s.cache.disk.file (makeCachedFilename s.cache.cacheRootDir key)

/-- The entry that counts a stream is listed, with its row, and refused to everyone. -/
def Awaits (json : PocoJson) (s : System) (reader : Reader) : Prop :=
  (∃ info, s.cache.entry reader.key = some info ∧ info.serial = reader.serial) ∧
    (s.cache.disk.row reader.key).isSome ∧ Refuses json s reader.key

/-! ## The invariant -/

/-- The removal was reserved and the last reader is done. -/
def Ended (info : HttpCacheInfo) : Prop := info.dataRefCount = 0 ∧ info.reservedRemove = true

/-- Initialised, with a row for each entry and no removal overdue. -/
structure Steady (s : HttpFileCache) : Prop extends Valid s where
  started : s.Started
  row_of_entry : ∀ k, (s.entry k).isSome → (s.disk.row k).isSome
  not_ended : ∀ k info, s.entry k = some info → ¬Ended info

/-- No failure is to come. -/
structure Quiet (s : HttpFileCache) : Prop extends Steady s where
  faults_eq : s.disk.faults = {}

/-- What a call does to the entries that are being read: `after` makes something of each of them,
and it is gone with its row and its file if that has ended. -/
structure Spares (after : HttpCacheInfo → HttpCacheInfo) (s t : HttpFileCache) : Prop where
  quiet : Quiet t
  cacheRootDir_eq : t.cacheRootDir = s.cacheRootDir
  nextSerial_le : s.nextSerial ≤ t.nextSerial
  known : ∀ k info', t.entry k = some info' →
    (∃ info, s.entry k = some info ∧ info.serial = info'.serial) ∨ s.nextSerial ≤ info'.serial
  left : ∀ k info, s.entry k = some info → info.dataRefCount ≠ 0 → ¬Ended (after info) →
    t.entry k = some (after info) ∧ t.disk.file (makeCachedFilename s.cacheRootDir k) =
      s.disk.file (makeCachedFilename s.cacheRootDir k)
  gone : ∀ k info, s.entry k = some info → info.dataRefCount ≠ 0 → Ended (after info) →
    storedIn t k = (none, none, none)

variable {json : PocoJson} {s t u : HttpFileCache} {after : HttpCacheInfo → HttpCacheInfo}
  {key k : String} {info : HttpCacheInfo} {α : Type}

/-- The removal of an entry that is read is not overdue. -/
theorem not_ended_of_busy (h : info.dataRefCount ≠ 0) : ¬Ended info := fun hended => h hended.1

/-- A call that leaves the entries that are being read as they are. -/
theorem spares_of_same (hquiet : Quiet t) (hroot : t.cacheRootDir = s.cacheRootDir)
    (hnext : s.nextSerial ≤ t.nextSerial)
    (hknown : ∀ k info', t.entry k = some info' →
      s.entry k = some info' ∨ s.nextSerial ≤ info'.serial)
    (hbusy : ∀ k info, s.entry k = some info → info.dataRefCount ≠ 0 → t.entry k = some info ∧
      t.disk.file (makeCachedFilename s.cacheRootDir k) =
        s.disk.file (makeCachedFilename s.cacheRootDir k)) : Spares id s t where
  quiet := hquiet
  cacheRootDir_eq := hroot
  nextSerial_le := hnext
  known := fun k info' hentry => (hknown k info' hentry).imp_left fun h => ⟨info', h, rfl⟩
  left := fun k info hentry hne _ => hbusy k info hentry hne
  gone := fun _ _ _ hne hended => absurd hended (not_ended_of_busy hne)

/-- A call without faults stays without them when entries leave. -/
theorem Quiet.trimmed {may : String → HttpCacheInfo → Prop} (h : Quiet s) (ht : Trimmed may s t) :
    Quiet t := by
  refine ⟨⟨⟨ht.trims.wf, fun k info hentry => ?_⟩, ?_, fun k hk => ?_, fun k info hentry => ?_⟩,
    Disk.Later.faults_eq ht.trims.later h.faults_eq⟩
  · rw [ht.nextSerial_eq]
    exact h.serial_lt k info (ht.trims.entry_of_entry hentry)
  · refine h.started.imp ht.initialized fun hroot => ?_
    rw [ht.cacheRootDir_eq, hroot]
  · obtain ⟨info, hentry⟩ := Option.isSome_iff_exists.mp hk
    have hold : s.entry k = some info := ht.trims.entry_of_entry hentry
    have hrow : t.disk.row k = s.disk.row k :=
      congrArg (fun p => p.2.1) (ht.trims.stored_eq hentry)
    rw [hrow]
    exact h.row_of_entry k (by rw [hold]; rfl)
  · exact h.not_ended k info (ht.trims.entry_of_entry hentry)

/-- Where only idle entries leave, the busy ones are spared. -/
theorem spares_of_trimmed (h : Quiet s)
    (ht : Trimmed (fun _ info => info.dataRefCount = 0) s t) : Spares id s t := by
  refine spares_of_same (h.trimmed ht) ht.cacheRootDir_eq (Nat.le_of_eq ht.nextSerial_eq.symm)
    (fun k info hentry => .inl (ht.trims.entry_of_entry hentry)) fun k info hentry hne => ?_
  rcases ht.trims.each k with hsame | ⟨-, old, hold, hzero⟩
  · have he : t.entry k = s.entry k := congrArg Prod.fst hsame
    exact ⟨he.trans hentry, congrArg (fun p => p.2.2) hsame⟩
  · have hold : s.entry k = some old := hold
    rw [hentry] at hold
    cases hold
    exact absurd hzero hne

theorem spares_of_untrimmed (h : Quiet s) (ht : Untrimmed s t) : Spares id s t :=
  spares_of_trimmed h ht.of_untrimmed

theorem Quiet.touched (h : Quiet s) (ht : Touched s t) : Quiet t := by
  have hentry := ht.entry_eq
  refine ⟨⟨⟨ht.lruCacheStrategy_eq ▸ h.wf, ?_⟩, ?_, fun k hk => ?_, ?_⟩,
    Disk.Later.faults_eq ht.later h.faults_eq⟩
  · rw [hentry, ht.nextSerial_eq]
    exact h.serial_lt
  · have hstarted := h.started
    unfold Started at hstarted ⊢
    rw [ht.initialized, ht.cacheRootDir_eq]
    exact hstarted
  · rw [hentry] at hk
    rw [(ht.rows k).1]
    exact h.row_of_entry k hk
  · rw [hentry]
    exact h.not_ended

/-- The order is nothing that a reader sees. -/
theorem spares_of_touched (h : Quiet s) (ht : Touched s t) : Spares id s t := by
  have hentry := ht.entry_eq
  refine spares_of_same (h.touched ht) ht.cacheRootDir_eq (Nat.le_of_eq ht.nextSerial_eq.symm)
    (fun k info hinfo => .inl (hentry ▸ hinfo)) fun k info hinfo _ => ?_
  refine ⟨hentry ▸ hinfo, ?_⟩
  unfold Disk.file
  rw [ht.files_eq]

/-- First nothing is done to the entries that are being read. -/
theorem Spares.trans (hst : Spares id s t) (htu : Spares after t u) : Spares after s u where
  quiet := htu.quiet
  cacheRootDir_eq := htu.cacheRootDir_eq.trans hst.cacheRootDir_eq
  nextSerial_le := Nat.le_trans hst.nextSerial_le htu.nextSerial_le
  known := by
    intro k info'' hentry''
    rcases htu.known k info'' hentry'' with ⟨info', hentry', hserial'⟩ | hnew
    · rcases hst.known k info' hentry' with ⟨info, hentry, hserial⟩ | hnew
      · exact .inl ⟨info, hentry, hserial.trans hserial'⟩
      · exact .inr (hserial' ▸ hnew)
    · exact .inr (Nat.le_trans hst.nextSerial_le hnew)
  left := by
    intro k info hentry hne hnot
    have hmid := hst.left k info hentry hne (not_ended_of_busy hne)
    have hend := htu.left k info hmid.1 hne hnot
    rw [hst.cacheRootDir_eq] at hend
    exact ⟨hend.1, hend.2.trans hmid.2⟩
  gone := by
    intro k info hentry hne hended
    exact htu.gone k info (hst.left k info hentry hne (not_ended_of_busy hne)).1 hne hended

/-- An entry stands under its own key. -/
theorem Quiet.key_eq (h : Quiet s) (hentry : s.entry k = some info) : info.key = k :=
  (h.wf.entry_eq_some_iff.mp hentry).2

/-- The entry of one key is written over. -/
theorem spares_of_rewritten {old : HttpCacheInfo} (h : Quiet s) (hentry : s.entry key = some old)
    (hserial : (after old).serial = old.serial) (hnot : ¬Ended (after old))
    (hother : ∀ i, i.key ≠ key → after i = i) (ht : Rewritten key (after old) s t) :
    Spares after s t := by
  -- an entry of `t` is the rewritten one or one of `s`
  have hlisted : ∀ k i, t.entry k = some i →
      k = key ∧ i = after old ∨ k ≠ key ∧ s.entry k = some i := by
    intro k i hi
    rw [ht.entry_eq] at hi
    by_cases hk : k = key
    · rw [hk, Function.update_self] at hi
      exact .inl ⟨hk, (Option.some.inj hi).symm⟩
    · rw [Function.update_of_ne hk] at hi
      exact .inr ⟨hk, hi⟩
  refine ⟨⟨⟨⟨ht.wf, fun k i hi => ?_⟩, ?_, fun k hk => ?_, fun k i hi => ?_⟩, ?_⟩,
    ht.cacheRootDir_eq, Nat.le_of_eq ht.nextSerial_eq.symm, fun k i hi => .inl ?_,
    fun k i hi hne hended => ?_, fun k i hi hne hended => ?_⟩
  · rw [ht.nextSerial_eq]
    rcases hlisted k i hi with ⟨-, rfl⟩ | ⟨-, hold⟩
    · rw [hserial]
      exact h.serial_lt key old hentry
    · exact h.serial_lt k i hold
  -- nothing else than the list has changed
  · have hstarted := h.started
    unfold Started at hstarted ⊢
    rw [ht.initialized, ht.cacheRootDir_eq]
    exact hstarted
  · obtain ⟨i, hi⟩ := Option.isSome_iff_exists.mp hk
    rw [ht.disk_eq]
    refine h.row_of_entry k ?_
    rcases hlisted k i hi with ⟨rfl, -⟩ | ⟨-, hold⟩
    · rw [hentry]
      rfl
    · rw [hold]
      rfl
  · rcases hlisted k i hi with ⟨-, rfl⟩ | ⟨-, hold⟩
    · exact hnot
    · exact h.not_ended k i hold
  · rw [ht.disk_eq]
    exact h.faults_eq
  · rcases hlisted k i hi with ⟨rfl, rfl⟩ | ⟨-, hold⟩
    · exact ⟨old, hentry, hserial.symm⟩
    · exact ⟨i, hold, rfl⟩
  · rw [ht.disk_eq, ht.entry_eq]
    refine ⟨?_, rfl⟩
    -- the entry of the key is rewritten, the others are as they were
    by_cases hk : k = key
    · subst hk
      rw [hentry] at hi
      cases hi
      rw [Function.update_self]
    · rw [Function.update_of_ne hk, hi, hother i (h.key_eq hi ▸ hk)]
  · by_cases hk : k = key
    · subst hk
      rw [hentry] at hi
      cases hi
      exact absurd hended hnot
    · rw [hother i (h.key_eq hi ▸ hk)] at hended
      exact absurd hended (not_ended_of_busy hne)

/-! ## Calls that look an entry up -/

section
variable {Q : α → HttpFileCache → Prop} {E : CacheException → HttpFileCache → Prop}

/-- A call that looks an entry up. -/
theorem wp_found {f : Option HttpCacheInfo → CacheExec α} (h : Quiet s)
    (hf : ∀ t, Spares id s t → t.entry = s.entry → t.disk = s.disk →
      wp (f (s.entry key)) Q E t) :
    wp (do
      initializeCache
      f (← lru (HttpLruCacheStrategy.get · key))) Q E s := by
  rw [wp_started h.started, wp_bind]
  refine wp_mono (wp_get_entry h.wf key) (fun found t ht => ?_) fun _ _ he => he.elim
  obtain ⟨rfl, hst, hdisk, -⟩ := ht
  exact hf t (spares_of_untrimmed h hst) hst.entry_eq hdisk

/-- No failure of the database is met. -/
theorem wp_catch_http {x corrupted failed : CacheExec α}
    (hx : wp x Q (fun e t => (∃ e', e = .http e') ∧ E e t) s) :
    wp (Exec.tryCatch x (catchSql corrupted failed)) Q E s := by
  rw [wp_tryCatch]
  refine wp_mono hx (fun _ _ h => h) fun e t ht => ?_
  obtain ⟨⟨e', rfl⟩, hE⟩ := ht
  exact hE

end

/-- Reading metadata spares the busy entries. -/
theorem spares_getMetadata (h : Quiet s) (key : String) :
    wp (getMetadata json key) (fun _ t => Spares id s t) (fun _ t => Spares id s t) s := by
  unfold getMetadata
  refine wp_catch_http (wp_found h fun t hst _ _ => ?_)
  split
  · exact hst
  · split
    · exact hst
    · refine wp_mono (wp_readMetadata key)
        (fun _ u hu => hst.trans (spares_of_touched hst.quiet hu.1)) fun e u hu => ?_
      refine ⟨hu.2.resolve_left (not_databaseFails_of_faults_eq hst.quiet.faults_eq), ?_⟩
      exact hst.trans (spares_of_touched hst.quiet hu.1)

/-- Writing metadata does so. -/
theorem spares_putMetadata (h : Quiet s) (key : String) (httpCacheMetadata : HttpCacheMetadata) :
    wp (putMetadata json key httpCacheMetadata) (fun _ t => Spares id s t)
      (fun _ t => Spares id s t) s := by
  unfold putMetadata
  refine wp_catch_http (wp_found h fun t hst _ _ => ?_)
  cases hentry : s.entry key with
  | none => exact hst
  | some info =>
    dsimp only
    by_cases hwritable : isWritable info = true
    · rw [hwritable]
      show wp (onDisk _ >>= _) _ _ t
      rw [wp_bind, wp_onDisk]
      refine wp_mono (wp_updateMetadata t.disk httpCacheMetadata) (fun _ d hd => ?_) fun e d hd =>
        absurd hd.2 (not_databaseFails_of_faults_eq hst.quiet.faults_eq)
      obtain ⟨hlater, hfiles, hrow⟩ := hd
      -- only a row is written
      have hquiet : Quiet { t with disk := d } := by
        refine ⟨⟨⟨hst.quiet.wf, hst.quiet.serial_lt⟩, hst.quiet.started, fun k hk => ?_,
          hst.quiet.not_ended⟩, Disk.Later.faults_eq hlater hst.quiet.faults_eq⟩
        show (d.row k).isSome
        rw [hrow]
        by_cases hkey : k = httpCacheMetadata.key
        · rw [hkey, Function.update_self]
          rfl
        · rw [Function.update_of_ne hkey]
          exact hst.quiet.row_of_entry k hk
      refine hst.trans (spares_of_same hquiet rfl (Nat.le_refl _) (fun _ _ hi => .inl hi) ?_)
      intro k info hinfo _
      refine ⟨hinfo, ?_⟩
      show d.files.find? _ = t.disk.files.find? _
      rw [hfiles]
    · rw [Bool.eq_false_iff.mpr hwritable]
      exact hst

/-- The reader is counted. -/
def counting (key : String) (info : HttpCacheInfo) : HttpCacheInfo :=
  if info.key = key then info.addDataRef else info

/-- What a call that opens a stream does, by its answer. -/
def Counts (key : String) (s : HttpFileCache) (stream : Option CacheStream) (t : HttpFileCache) :
    Prop :=
  match stream with
  | some stream => ∃ info, s.entry key = some info ∧ stream.serial = info.serial ∧
      info.reservedRemove = false ∧ t.entry key = some info.addDataRef ∧
        Spares (counting key) s t
  | none => Spares id s t

/-- A new stream is counted in the entry it was opened on. -/
theorem counts_addReader (hst : Spares id s t) (hentry : t.entry key = some info)
    (hold : s.entry key = some info) (hreserved : info.reservedRemove = false) (content : String) :
    wp (addReader key info content) (fun stream u => Counts key s stream u)
      (fun _ _ => False) t := by
  refine wp_mono (wp_addReader hst.quiet.wf hentry hreserved content) (fun stream u hu => ?_)
    fun _ _ he => he
  obtain ⟨rfl, hu⟩ := hu
  have hcounting : counting key info = info.addDataRef := if_pos (hst.quiet.key_eq hentry)
  refine ⟨info, hold, rfl, hreserved, ?_, hst.trans (spares_of_rewritten hst.quiet hentry ?_ ?_
    (fun i hi => if_neg hi) (hcounting ▸ hu))⟩
  · rw [hu.entry_eq, Function.update_self]
  · rw [hcounting]
    rfl
  · rw [hcounting]
    exact fun hended => absurd (hreserved.symm.trans hended.2) Bool.false_ne_true

/-- So `getData` counts its stream. -/
theorem counts_getData (h : Quiet s) (key : String) :
    wp (getData key) (fun stream t => Counts key s stream t) (fun _ t => Spares id s t) s := by
  unfold getData
  refine wp_catch_http (wp_found h fun t hst hsame _ => ?_)
  cases hentry : s.entry key with
  | none => exact hst
  | some info =>
    dsimp only
    cases hreserved : info.reservedRemove with
    | true => exact hst
    | false =>
      have hlisted : t.entry key = some info := (congrFun hsame key).trans hentry
      show wp (createStreamFromCache key >>= _) _ _ t
      rw [wp_bind]
      refine wp_mono (wp_createStreamFromCache key) (fun content u hu => ?_) fun _ _ he => he.elim
      have hsu := hst.trans (spares_of_touched hst.quiet hu.1)
      cases content with
      | none => exact hsu
      | some content =>
        exact wp_mono (counts_addReader hsu ((congrFun hu.1.entry_eq key).trans hlisted) hentry
          hreserved content) (fun _ _ hv => hv) fun _ _ he => he.elim

/-- So does `get`. -/
theorem counts_get (h : Quiet s) (key : String) :
    wp (HttpFileCache.get json key) (fun found t => Counts key s (found.map Prod.snd) t)
      (fun _ t => Spares id s t) s := by
  unfold HttpFileCache.get
  refine wp_catch_http (wp_found h fun t hst hsame _ => ?_)
  -- without an entry, or with a reserved one, nothing is opened
  cases hentry : s.entry key with
  | none => exact hst
  | some info =>
    dsimp only
    cases hreserved : info.reservedRemove with
    | true => exact hst
    | false =>
      have hlisted : t.entry key = some info := (congrFun hsame key).trans hentry
      show wp (readMetadata json key >>= _) _ _ t
      rw [wp_bind]
      refine wp_mono (wp_readMetadata key) (fun metadata u hu => ?_) fun e u hu => ?_
      -- the metadata have been read, and the stream is opened
      · have hsu := hst.trans (spares_of_touched hst.quiet hu.1)
        have hlisted : u.entry key = some info := (congrFun hu.1.entry_eq key).trans hlisted
        cases metadata with
        | none => exact hsu
        | some metadata =>
          show wp (createStreamFromCache key >>= _) _ _ u
          rw [wp_bind]
          refine wp_mono (wp_createStreamFromCache key) (fun content v hv => ?_)
            fun _ _ he => he.elim
          have hsv := hsu.trans (spares_of_touched hsu.quiet hv.1)
          cases content with
          | none => exact hsv
          | some content =>
            show wp (addReader key info content >>= _) _ _ v
            rw [wp_bind]
            refine wp_mono (counts_addReader hsv ((congrFun hv.1.entry_eq key).trans hlisted)
              hentry hreserved content) (fun stream w hw => ?_) fun _ _ he => he.elim
            cases stream with
            | none => exact hw
            | some stream => exact hw
      -- the database does not throw here
      · refine ⟨hu.2.resolve_left (not_databaseFails_of_faults_eq hst.quiet.faults_eq), ?_⟩
        exact hst.trans (spares_of_touched hst.quiet hu.1)

/-! ## Calls that write -/

/-- The file and the row of a key that is not listed play no part. -/
theorem spares_of_othersKept (h : Quiet s) (hentry : s.entry key = none) {disk : Disk}
    (hkept : OthersKept s.cacheRootDir key s.disk disk)
    (hrow : ∀ k, k ≠ key → disk.row k = s.disk.row k) {n : ℕ} (hn : s.nextSerial ≤ n) :
    Spares id s { s with disk := disk, nextSerial := n } := by
  have hne : ∀ k info, s.entry k = some info → k ≠ key := by
    rintro k info hinfo rfl
    rw [hentry] at hinfo
    cases hinfo
  refine spares_of_same ⟨⟨⟨h.wf, fun k info hinfo => ?_⟩, h.started, fun k hk => ?_, h.not_ended⟩,
    Disk.Later.faults_eq hkept.1 h.faults_eq⟩ rfl hn (fun k info hinfo => .inl hinfo)
    fun k info hinfo _ => ⟨hinfo, hkept.2 k (hne k info hinfo)⟩
  · exact Nat.lt_of_lt_of_le (h.serial_lt k info hinfo) hn
  · obtain ⟨info, hinfo⟩ := Option.isSome_iff_exists.mp hk
    have hinfo : s.entry k = some info := hinfo
    show (disk.row k).isSome
    rw [hrow k (hne k info hinfo)]
    exact h.row_of_entry k (by rw [hinfo]; rfl)

/-- A new entry that has its row. -/
theorem spares_of_pushed (hst : Spares id s t) (hentry : t.entry key = none)
    (hrow : (t.disk.row key).isSome) (hkey : info.key = key) (hnew : s.nextSerial ≤ info.serial)
    (hlt : info.serial < t.nextSerial) (hnot : ¬Ended info) :
    Spares id s { t with lruCacheStrategy := t.lruCacheStrategy.push key info } := by
  have h := hst.quiet
  have hpush : (t.lruCacheStrategy.push key info).entry =
    Function.update t.entry key (some info) := h.wf.entry_push hkey
  -- an entry is the new one or one of `t`
  have hlisted : ∀ k i, (t.lruCacheStrategy.push key info).entry k = some i →
      k = key ∧ i = info ∨ k ≠ key ∧ t.entry k = some i := by
    intro k i hi
    rw [hpush] at hi
    by_cases hk : k = key
    · rw [hk, Function.update_self] at hi
      exact .inl ⟨hk, (Option.some.inj hi).symm⟩
    · rw [Function.update_of_ne hk] at hi
      exact .inr ⟨hk, hi⟩
  refine ⟨⟨⟨⟨h.wf.wf_push hkey, fun k i hi => ?_⟩, h.started, fun k hk => ?_, fun k i hi => ?_⟩,
    h.faults_eq⟩, hst.cacheRootDir_eq, hst.nextSerial_le, fun k i hi => ?_,
    fun k i hi hne hended => ?_, fun _ _ _ hne hended => absurd hended (not_ended_of_busy hne)⟩
  · rcases hlisted k i hi with ⟨-, rfl⟩ | ⟨-, hold⟩
    · exact hlt
    · exact h.serial_lt k i hold
  · obtain ⟨i, hi⟩ := Option.isSome_iff_exists.mp hk
    rcases hlisted k i hi with ⟨rfl, -⟩ | ⟨-, hold⟩
    · exact hrow
    · exact h.row_of_entry k (by rw [hold]; rfl)
  · rcases hlisted k i hi with ⟨-, rfl⟩ | ⟨-, hold⟩
    · exact hnot
    · exact h.not_ended k i hold
  · rcases hlisted k i hi with ⟨-, rfl⟩ | ⟨-, hold⟩
    · exact .inr hnew
    · exact hst.known k i hold
  -- what was there before is there, under another key
  · obtain ⟨hold, hfile⟩ := hst.left k i hi hne hended
    refine ⟨?_, hfile⟩
    show (t.lruCacheStrategy.push key info).entry k = _
    rw [hpush, Function.update_of_ne]
    · exact hold
    · rintro rfl
      rw [hentry] at hold
      cases hold

/-- `makeSpace` for a key that is not listed. -/
theorem spares_makeSpace (h : Quiet s) (hentry : s.entry key = none) (size : UInt64) :
    wp (lru (HttpLruCacheStrategy.makeSpace · size))
      (fun _ t => Spares id s t ∧ t.entry key = none ∧ t.disk.row key = s.disk.row key ∧
        t.nextSerial = s.nextSerial) (fun _ _ => False) s := by
  refine wp_mono (wp_makeSpace_trimmed h.wf size (.inl (filesWork_of_faults_eq h.faults_eq)))
    (fun _ t ht => ?_) fun e t ht => not_corruptFound_of_faults_eq h.faults_eq ht.2
  obtain ⟨hgone, hrow⟩ := ht.row_of_none hentry
  exact ⟨spares_of_trimmed h ht, hgone, hrow, ht.nextSerial_eq⟩

/-- The removal of an entry that nobody reads. -/
theorem spares_removeInternal (h : Quiet s) (hidle : IsIdle s.lruCacheStrategy key) :
    wp (removeInternal key)
      (fun _ t => Spares id s t ∧ t.entry key = none) (fun _ _ => False) s := by
  have hhead : s.disk.faults.database.headD .none = .none := by
    rw [h.faults_eq]
    rfl
  refine wp_mono (wp_removeInternal_idle h.wf (filesWork_of_faults_eq h.faults_eq) hidle)
    (fun ret t ht => ?_) fun e t ht => ht.2.2 hhead
  obtain ⟨hst, hgone, -, hanswer⟩ := ht
  refine ⟨spares_of_trimmed h (hst.mono fun k info hentry hk => ?_), ?_⟩
  · subst hk
    exact hidle info hentry
  · cases hentry : s.entry key with
    | none => exact hst.trims.gone hentry
    | some info =>
      have hlisted : (s.entry key).isSome := by
        rw [hentry]
        rfl
      exact congrArg Prod.fst (hgone (hanswer hhead hlisted (h.row_of_entry key hlisted)))

/-- To make room spares the busy entries. -/
theorem spares_makeRoom (h : Quiet s) (key : String) (size : UInt64) :
    wp (makeRoom key size)
      (fun ret t => Spares id s t ∧ (ret = true → t.entry key = none))
      (fun _ _ => False) s := by
  unfold makeRoom
  refine wp_catch_http (wp_found h fun t hst hsame _ => ?_)
  cases hentry : s.entry key with
  | none =>
    have hgone : t.entry key = none := (congrFun hsame key).trans hentry
    exact wp_mono (spares_makeSpace hst.quiet hgone size)
      (fun _ u hu => ⟨hst.trans hu.1, fun _ => hu.2.1⟩) fun _ _ he => he.elim
  | some info =>
    dsimp only
    by_cases hwritable : isWritable info = true
    · rw [hwritable]
      have hzero : info.dataRefCount = 0 := by
        unfold isWritable at hwritable
        rw [Bool.and_eq_true] at hwritable
        exact of_decide_eq_true hwritable.2
      have hidle : IsIdle t.lruCacheStrategy key := by
        intro i hi
        have hi : t.entry key = some i := hi
        rw [hsame, hentry] at hi
        cases hi
        exact hzero
      show wp (removeInternal key >>= _) _ _ t
      rw [wp_bind]
      refine wp_mono (spares_removeInternal hst.quiet hidle) (fun _ u hu => ?_)
        fun _ _ he => he.elim
      exact wp_mono (spares_makeSpace hu.1.quiet hu.2 size)
        (fun _ v hv => ⟨hst.trans (hu.1.trans hv.1), fun _ => hv.2.1⟩) fun _ _ he => he.elim
    · rw [Bool.eq_false_iff.mpr hwritable]
      exact ⟨hst, nofun⟩

/-- So does `put`; it replaces no entry that is read. -/
theorem spares_put (h : Quiet s) {httpCacheMetadata : HttpCacheMetadata} {path : String}
    (hkey : httpCacheMetadata.key = key) (hpath : isBodyFile s.cacheRootDir path = false) :
    wp (put json key httpCacheMetadata path) (fun _ t => Spares id s t) (fun _ _ => False) s := by
  unfold put
  rw [wp_bind]
  refine wp_mono (spares_makeRoom h key httpCacheMetadata.responseBodySize) (fun ret t ht => ?_)
    fun _ _ he => he
  obtain ⟨hst, hgone⟩ := ht
  cases ret with
  | false => exact hst
  -- the entry of the key is out of the way
  | true =>
    have hentry := hgone rfl
    have hq := hst.quiet
    show wp (newHttpCacheInfo key httpCacheMetadata.responseBodySize >>= _) _ _ t
    unfold newHttpCacheInfo
    rw [wp_bind, wp_bind, wp_getState, wp_bind, wp_modifyState, wp_pure, wp_bind, wp_getState]
    rw [wp_bind, wp_onDisk]
    have hpath' : isBodyFile t.cacheRootDir path = false := hst.cacheRootDir_eq ▸ hpath
    refine wp_mono (wp_moveFile t.disk path _) (fun moved d hd => ?_) fun e d hd =>
      absurd (filesWork_of_faults_eq hq.faults_eq) hd.2.1
    have hkept := othersKept_of_movesFile hpath' hd
    have hrow : d.row = t.disk.row := congrArg SortedMap.find? hd.2.1
    have hmoved := hst.trans (spares_of_othersKept hq hentry hkept
      (fun k _ => congrFun hrow k) (Nat.le_succ t.nextSerial))
    -- the body could not be moved, or it is in its place
    cases moved with
    | false => exact hmoved
    | true =>
      have hcorrupt : Fault.corrupt ∉ d.faults.database := by
        rw [Disk.Later.faults_eq hkept.1 hq.faults_eq]
        exact List.not_mem_nil
      show wp (storeMetadata json httpCacheMetadata _ >>= _) _ _ _
      rw [wp_bind]
      refine wp_mono (wp_storeMetadata (s := { t with
        disk := d
        nextSerial := t.nextSerial + 1 }) hq.started hcorrupt key) (fun ret v hv => ?_)
        fun _ _ he => he
      obtain ⟨disk, rfl, hothers, hanswer⟩ := hv
      have hkept' : OthersKept t.cacheRootDir key t.disk disk :=
        ⟨trans_of _ hkept.1 hothers.1, fun k hk => (hothers.2 k hk).trans (hkept.2 k hk)⟩
      -- the row could not be written, or the entry is put into the list
      cases ret with
      | false =>
        have hrow' : disk.row = d.row := hanswer
        exact hst.trans (spares_of_othersKept hq hentry hkept'
          (fun k _ => congrFun (hrow'.trans hrow) k) (Nat.le_succ t.nextSerial))
      | true =>
        have hrow' : disk.row = Function.update t.disk.row key
            (some (httpCacheMetadata.toRow json d.nowAtEpoch)) := by
          have h : disk.row = Function.update d.row httpCacheMetadata.key _ := hanswer.2
          rw [h, hkey, hrow]
        have hstored := hst.trans (spares_of_othersKept hq hentry hkept'
          (fun k hk => by rw [hrow', Function.update_of_ne hk]) (Nat.le_succ t.nextSerial))
        show wp (lru (HttpLruCacheStrategy.update · key _) >>= _) _ _ _
        rw [wp_bind]
        refine wp_update_unlisted rfl (wp_addOrUpdate_new hentry ?_)
        refine wp_mono (spares_makeSpace hstored.quiet hentry _) (fun ret u hu => ?_)
          fun _ _ he => he
        obtain ⟨hspared, hnone, hrow_eq, hnext⟩ := hu
        have hsu := hstored.trans hspared
        cases ret with
        | false => exact hsu
        | true =>
          refine spares_of_pushed hsu hnone ?_ rfl hst.nextSerial_le ?_ ?_
          · rw [hrow_eq]
            show (disk.row key).isSome
            rw [hrow', Function.update_self]
            rfl
          · rw [hnext]
            exact Nat.lt_succ_self _
          · exact fun hended => absurd hended.2 Bool.false_ne_true

/-! ## Calls that remove -/

/-- Only what happens to busy entries counts. -/
theorem Spares.congr {after' : HttpCacheInfo → HttpCacheInfo} (h : Spares after s t)
    (heq : ∀ k info, s.entry k = some info → info.dataRefCount ≠ 0 → after info = after' info) :
    Spares after' s t := by
  refine ⟨h.quiet, h.cacheRootDir_eq, h.nextSerial_le, h.known, fun k info hentry hne hnot => ?_,
    fun k info hentry hne hended => ?_⟩
  · rw [← heq k info hentry hne] at hnot ⊢
    exact h.left k info hentry hne hnot
  · rw [← heq k info hentry hne] at hended
    exact h.gone k info hentry hne hended

/-- The removal is put off. -/
def reserving (key : String) (info : HttpCacheInfo) : HttpCacheInfo :=
  if info.key = key then { info with reservedRemove := true } else info

/-- `remove` marks a busy entry, and leaves it otherwise. -/
theorem spares_remove (h : Quiet s) (key : String) :
    wp (HttpFileCache.remove key) (fun _ t => Spares (reserving key) s t) (fun _ _ => False) s := by
  unfold HttpFileCache.remove
  refine wp_catch_http ((wp_started h.started).mpr ?_)
  by_cases hbusy : ∃ info, s.entry key = some info ∧ info.dataRefCount ≠ 0
  · obtain ⟨info, hentry, hne⟩ := hbusy
    have hreserving : reserving key info = { info with reservedRemove := true } :=
      if_pos (h.key_eq hentry)
    refine wp_mono (wp_removeInternal_busy h.wf hentry hne) (fun _ t ht => ?_) fun _ _ he => he.elim
    refine spares_of_rewritten h hentry ?_ ?_ (fun i hi => if_neg hi) (hreserving ▸ ht.2)
    · rw [hreserving]
    · rw [hreserving]
      exact fun hended => hne hended.1
  · have hidle : IsIdle s.lruCacheStrategy key :=
      fun info hentry => not_not.mp fun hne => hbusy ⟨info, hentry, hne⟩
    refine wp_mono (spares_removeInternal h hidle) (fun _ t ht => ?_) fun _ _ he => he.elim
    refine ht.1.congr fun k info hentry hne => (if_neg fun hkey => hne ?_).symm
    rw [h.key_eq hentry] at hkey
    subst hkey
    exact hidle info hentry

/-- `purge` of what may be removed leaves the busy entries. -/
theorem spares_purge (h : Quiet s) :
    wp (purge false) (fun _ t => Spares id s t) (fun _ _ => False) s := by
  unfold purge
  refine wp_catch_http ((wp_started h.started).mpr ?_)
  rw [wp_bind, wp_lru]
  refine wp_mono (wp_clear (s := s.stores) h.wf (filesWork_of_faults_eq h.faults_eq) false)
    (fun ret p hp => ?_) fun e p hp => absurd hp.2 (not_corruptFound_of_faults_eq h.faults_eq)
  obtain ⟨htrims, hall⟩ := hp
  have hcleared : Spares id s (s.withStores p) :=
    spares_of_trimmed h (trimmed_of_trims (htrims.mono fun _ _ _ hmay =>
      hmay.resolve_left Bool.false_ne_true))
  cases ret with
  | false => exact hcleared
  | true =>
    have hnone : ∀ k, (s.withStores p).entry k = none := hall rfl
    show wp (deleteCacheFile >>= _) _ _ _
    unfold deleteCacheFile
    rw [wp_bind, wp_bind, wp_onDisk]
    refine wp_mono (wp_deleteDatabaseFile _) (fun _ d hd => ?_) fun _ _ he => he.elim
    -- the rows go, but nothing is listed
    have hempty : Spares id (s.withStores p) { s.withStores p with disk := d } := by
      refine spares_of_same ⟨⟨⟨hcleared.quiet.wf, hcleared.quiet.serial_lt⟩,
        hcleared.quiet.started, fun k hk => ?_, hcleared.quiet.not_ended⟩,
        Disk.Later.faults_eq hd.1 hcleared.quiet.faults_eq⟩ rfl (Nat.le_refl _)
        (fun _ _ hi => .inl hi) fun k info hentry _ => ?_
      · have hk : ((s.withStores p).entry k).isSome := hk
        rw [hnone] at hk
        cases hk
      · rw [hnone] at hentry
        cases hentry
    exact hcleared.trans hempty

/-- One reader less is counted. -/
def releasing (key : String) (info : HttpCacheInfo) : HttpCacheInfo :=
  if info.key = key then info.releaseDataRef else info

/-- The entry that was written over last is removed, for it has ended. -/
theorem spares_of_ended {c : HttpFileCache} {old : HttpCacheInfo} (h : Quiet s)
    (hentry : s.entry key = some old) (hended : Ended (releasing key old))
    (hc : Rewritten key (releasing key old) s c) (ht : Trimmed (fun k _ => k = key) c t)
    (hgone : storedIn t key = (none, none, none)) : Spares (releasing key) s t := by
  -- what is left is what was there under other keys
  have hlisted : ∀ k i, t.entry k = some i → k ≠ key ∧ s.entry k = some i := by
    intro k i hi
    have hk : k ≠ key := by
      rintro rfl
      have hnone : t.entry k = none := congrArg Prod.fst hgone
      rw [hnone] at hi
      cases hi
    have hmid : c.entry k = some i := ht.trims.entry_of_entry hi
    rw [hc.entry_eq, Function.update_of_ne hk] at hmid
    exact ⟨hk, hmid⟩
  -- under another key all is as it was
  have hother : ∀ k, k ≠ key → t.entry k = s.entry k ∧ t.disk.row k = s.disk.row k ∧
      t.disk.file (makeCachedFilename s.cacheRootDir k) =
        s.disk.file (makeCachedFilename s.cacheRootDir k) := by
    intro k hk
    have hsame := (ht.trims.each k).resolve_right fun hout => by
      obtain ⟨-, -, -, hkey⟩ := hout
      exact hk hkey
    have he : t.entry k = c.entry k := congrArg Prod.fst hsame
    have hr : t.disk.row k = c.disk.row k := congrArg (fun p => p.2.1) hsame
    have hf : t.disk.file (makeCachedFilename c.cacheRootDir k) =
      c.disk.file (makeCachedFilename c.cacheRootDir k) := congrArg (fun p => p.2.2) hsame
    rw [hc.entry_eq, Function.update_of_ne hk] at he
    rw [hc.disk_eq] at hr hf
    rw [hc.cacheRootDir_eq] at hf
    exact ⟨he, hr, hf⟩
  have hnext : t.nextSerial = s.nextSerial := ht.nextSerial_eq.trans hc.nextSerial_eq
  refine ⟨⟨⟨⟨ht.trims.wf, fun k i hi => ?_⟩, ?_, fun k hk => ?_, fun k i hi => ?_⟩, ?_⟩,
    ht.cacheRootDir_eq.trans hc.cacheRootDir_eq, Nat.le_of_eq hnext.symm, fun k i hi => .inl ?_,
    fun k i hi _ hnot => ?_, fun k i hi hne hend => ?_⟩
  · rw [hnext]
    exact h.serial_lt k i (hlisted k i hi).2
  · refine h.started.imp (fun hinit => ht.initialized (hc.initialized.trans hinit)) fun hroot => ?_
    rw [ht.cacheRootDir_eq, hc.cacheRootDir_eq, hroot]
  · obtain ⟨i, hi⟩ := Option.isSome_iff_exists.mp hk
    obtain ⟨hne, hold⟩ := hlisted k i hi
    rw [(hother k hne).2.1]
    exact h.row_of_entry k (by rw [hold]; rfl)
  · exact h.not_ended k i (hlisted k i hi).2
  -- nothing has failed on the way
  · refine Disk.Later.faults_eq ht.trims.later ?_
    show c.disk.faults = {}
    rw [hc.disk_eq]
    exact h.faults_eq
  · exact ⟨i, (hlisted k i hi).2, rfl⟩
  -- an entry that is left has another key
  · have hk : k ≠ key := by
      rintro rfl
      rw [hentry] at hi
      cases hi
      exact hnot hended
    have hsame : releasing key i = i := if_neg (h.key_eq hi ▸ hk)
    rw [hsame]
    exact ⟨(hother k hk).1.trans hi, (hother k hk).2.2⟩
  -- the entry of the key is the one that has ended
  · by_cases hk : i.key = key
    · rw [← h.key_eq hi, hk]
      exact hgone
    · have hsame : releasing key i = i := if_neg hk
      rw [hsame] at hend
      exact absurd hend (not_ended_of_busy hne)

/-- `releaseData` counts the stream of its entry off. -/
theorem spares_releaseData (h : Quiet s) (key : String) :
    wp (releaseData key) (fun _ t => Spares (releasing key) s t) (fun _ _ => False) s := by
  unfold releaseData
  rw [wp_bind]
  refine wp_mono (wp_get_entry h.wf key) (fun found t ht => ?_) fun _ _ he => he
  obtain ⟨rfl, hst, -⟩ := ht
  have hspared := spares_of_untrimmed h hst
  have hq := hspared.quiet
  -- an entry without readers, or none, stays as it is
  have hsame : (∀ info, s.entry key = some info → info.dataRefCount = 0) →
      Spares (releasing key) s t := by
    intro hzero
    refine hspared.congr fun k info hentry hne => (if_neg fun hkey => hne ?_).symm
    rw [h.key_eq hentry] at hkey
    subst hkey
    exact hzero info hentry
  cases hentry : s.entry key with
  | none => exact hsame fun info hi => by rw [hentry] at hi; cases hi
  | some info =>
    have hlisted : t.entry key = some info := (congrFun hst.entry_eq _).trans hentry
    by_cases hzero : info.dataRefCount = 0
    · simp only [if_pos hzero]
      refine hsame fun i hi => ?_
      rw [hentry] at hi
      cases hi
      exact hzero
    · simp only [if_neg hzero]
      have hkey : info.key = key := hq.key_eq hlisted
      have hreleasing : releasing key info = info.releaseDataRef := if_pos hkey
      have hsize : info.releaseDataRef.dataSize = info.dataSize := by
        unfold HttpCacheInfo.releaseDataRef
        split <;> rfl
      have hkey' : info.releaseDataRef.key = key := by
        unfold HttpCacheInfo.releaseDataRef
        split <;> exact hkey
      -- one stream less is counted in the entry
      have hpush := rewritten_push hq.wf hlisted hkey' hsize
      refine wp_catch_http ?_
      rw [wp_bind]
      refine wp_update_listed hlisted hsize (fun hlast hreserved => ?_) fun hnot => ?_
      -- the last stream of a reserved entry: it is removed now
      · have hhead : t.disk.faults.database.headD .none = .none := by
          rw [hq.faults_eq]
          rfl
        have hremoved : wp (LruCacheByDataSizeStrategy.remove (listener t.cacheRootDir) key)
            _ _ _ := wp_remove_base (s := HttpFileCache.stores { t with
          lruCacheStrategy := t.lruCacheStrategy.push key info.releaseDataRef }) hpush.wf
            (filesWork_of_faults_eq hq.faults_eq) key
        rw [wp_lru]
        refine wp_mono hremoved (fun ret p hp => ?_) fun e p hp => absurd hhead hp.2.2
        obtain ⟨htrims, hgone, -, hanswer⟩ := hp
        have hpushed : (t.lruCacheStrategy.push key info.releaseDataRef).entry key =
            some info.releaseDataRef := by
          rw [hq.wf.entry_push hkey', Function.update_self]
        have hret : ret = true := by
          refine hanswer hhead ?_ (hq.row_of_entry key (by rw [hlisted]; rfl))
          show ((t.lruCacheStrategy.push key info.releaseDataRef).entry key).isSome
          rw [hpushed]
          rfl
        refine hspared.trans (spares_of_ended hq hlisted ?_ (hreleasing ▸ hpush)
          (trimmed_of_trims htrims) (hgone hret))
        rw [hreleasing]
        exact ⟨hlast, hreserved⟩
      -- otherwise the entry stays
      · refine hspared.trans (spares_of_rewritten hq hlisted ?_ ?_ (fun i hi => if_neg hi)
          (hreleasing ▸ hpush))
        · rw [hreleasing]
          exact serial_releaseDataRef
        · rw [hreleasing]
          exact hnot

/-- A file of others. -/
theorem spares_createFile (h : Quiet s) {path : String} (content : String)
    (hpath : isBodyFile s.cacheRootDir path = false) :
    Spares id s { s with disk := { s.disk with files := s.disk.files.set path content } } := by
  refine spares_of_same ⟨⟨⟨h.wf, h.serial_lt⟩, h.started, h.row_of_entry, h.not_ended⟩,
    h.faults_eq⟩ rfl (Nat.le_refl _) (fun _ _ hi => .inl hi) fun k info hentry _ => ⟨hentry, ?_⟩
  show (s.disk.files.set path content).find? _ = _
  rw [SortedMap.find?_set_eq, Function.update_of_ne fun heq => ?_]
  · rfl
  · have htrue := isBodyFile_makeCachedFilename s.cacheRootDir k
    rw [heq, hpath] at htrue
    cases htrue

/-! ## Refusals -/

theorem Steady.quiet_start {cache : HttpFileCache} (h : Steady cache) {action : Action}
    (hfaults : action.faults = {}) : Quiet (start cache action) :=
  ⟨⟨⟨h.wf, h.serial_lt⟩, h.started, h.row_of_entry, h.not_ended⟩, hfaults⟩

/-- A `put` on an entry that waits for its removal is refused. -/
theorem refused_put (h : Quiet s) (hentry : s.entry key = some info)
    (hreserved : info.reservedRemove = true) (httpCacheMetadata : HttpCacheMetadata)
    (path : String) :
    wp (put json key httpCacheMetadata path) (fun r _ => r = false) (fun _ _ => False) s := by
  have hwritable : isWritable info = false := by
    unfold isWritable
    rw [hreserved]
    rfl
  have hroom : wp (makeRoom key httpCacheMetadata.responseBodySize) (fun r _ => r = false)
      (fun _ _ => False) s := by
    unfold makeRoom
    refine wp_catch_http (wp_found h fun t _ _ _ => ?_)
    rw [hentry]
    dsimp only
    rw [hwritable]
    rfl
  unfold put
  rw [wp_bind]
  refine wp_mono hroom (fun r t hr => ?_) fun _ _ he => he
  subst hr
  rfl

/-- An entry that waits for its removal is refused to every call that reads or writes it. -/
theorem refuses_of_reserved {s : System} (h : Steady s.cache)
    (hentry : s.cache.entry key = some info) (hreserved : info.reservedRemove = true) :
    Refuses json s key := by
  intro nowAtEpoch
  have hq : Quiet (start s.cache ⟨.getMetadata key, nowAtEpoch, {}⟩) := h.quiet_start rfl
  have hentry : (start s.cache ⟨.getMetadata key, nowAtEpoch, {}⟩).entry key = some info := hentry
  refine ⟨exec_eq_ok ?_, exec_eq_ok ?_, exec_eq_ok ?_, fun httpCacheMetadata =>
    ⟨exec_eq_ok ?_, fun path => exec_eq_ok (refused_put hq hentry hreserved _ path)⟩⟩
  -- each operation that would answer finds the entry reserved
  · unfold getMetadata
    refine wp_catch_http (wp_found hq fun t _ _ _ => ?_)
    rw [hentry]
    dsimp only
    rw [if_pos hreserved]
    rfl
  · unfold getData
    refine wp_catch_http (wp_found hq fun t _ _ _ => ?_)
    rw [hentry]
    dsimp only
    rw [if_pos hreserved]
    rfl
  · unfold HttpFileCache.get
    refine wp_catch_http (wp_found hq fun t _ _ _ => ?_)
    rw [hentry]
    dsimp only
    rw [if_pos hreserved]
    rfl
  · unfold putMetadata
    refine wp_catch_http (wp_found hq fun t _ _ _ => ?_)
    have hwritable : isWritable info = false := by
      unfold isWritable
      rw [hreserved]
      rfl
    rw [hentry]
    dsimp only
    rw [hwritable]
    rfl

/-! ## Steps -/

/-- Each open stream is counted in a listed entry. -/
structure Served (s : System) : Prop where
  counted : CacheReaders.Inv s
  steady : Steady s.cache
  listed : ∀ reader ∈ s.readers, ∃ info, s.cache.entry reader.key = some info ∧
    info.serial = reader.serial

/-- An open stream belongs to an entry that is counted as read. -/
theorem Served.busy {s : System} (h : Served s) {reader : Reader} (hmem : reader ∈ s.readers)
    (hentry : s.cache.entry reader.key = some info) :
    info.serial = reader.serial ∧ info.dataRefCount.toNat = s.readers.count reader ∧
      info.dataRefCount ≠ 0 := by
  obtain ⟨found, hfound, hserial⟩ := h.listed reader hmem
  rw [hentry] at hfound
  cases hfound
  have hcount := h.counted.counted reader.key info hentry
  rw [hserial] at hcount
  refine ⟨hserial, hcount, fun hzero => ?_⟩
  rw [hzero] at hcount
  exact absurd hcount.symm (Nat.ne_of_gt (List.count_pos_iff.mpr hmem))

/-- What a step does to the entries that count open streams. -/
structure Respects (s : System) (call : Call) (s' : System) : Prop where
  served : Served s'
  nextSerial_le : s.cache.nextSerial ≤ s'.cache.nextSerial
  left : ∀ reader ∈ s.readers, reader ∈ s'.readers →
    bodyFile s' reader.key = bodyFile s reader.key ∧
      ∀ info, s.cache.entry reader.key = some info →
        info.reservedRemove = true ∨ call = .remove reader.key →
        ∃ info', s'.cache.entry reader.key = some info' ∧ info'.reservedRemove = true
  gone : ∀ reader ∈ s.readers, reader ∉ s'.readers → ∀ info,
    s.cache.entry reader.key = some info → info.reservedRemove = true →
      storedIn s'.cache reader.key = (none, none, none)
  known : ∀ k info', s'.cache.entry k = some info' →
    (∃ info, s.cache.entry k = some info ∧ info.serial = info'.serial) ∨
      s.cache.nextSerial ≤ info'.serial
  opened : ∀ reader ∈ s'.readers, reader ∉ s.readers →
    ∃ info, s.cache.entry reader.key = some info ∧ info.serial = reader.serial

/-- A call that spares the busy entries respects the streams. -/
theorem respects_of_spares {s : System} {action : Action} {readers : List Reader} (h : Served s)
    (hspares : Spares after (start s.cache action) t) (hinv : CacheReaders.Inv ⟨t, readers⟩)
    (hserial : ∀ i, (after i).serial = i.serial)
    (hreserved : ∀ i, i.reservedRemove = true ∨ action.call = .remove i.key →
      (after i).reservedRemove = true)
    (hleft : ∀ reader ∈ s.readers, reader ∈ readers → ∀ info,
      s.cache.entry reader.key = some info → ¬Ended (after info))
    (hgone : ∀ reader ∈ s.readers, reader ∉ readers → ∀ info,
      s.cache.entry reader.key = some info → (after info).dataRefCount = 0)
    (hopened : ∀ reader ∈ readers, reader ∉ s.readers →
      ∃ info info', s.cache.entry reader.key = some info ∧ info.serial = reader.serial ∧
        t.entry reader.key = some info' ∧ info'.serial = reader.serial) :
    Respects s action.call ⟨t, readers⟩ where
  served := by
    refine ⟨hinv, hspares.quiet.toSteady, fun reader hmem => ?_⟩
    -- a stream that was open, or one that has been opened in this step
    by_cases hold : reader ∈ s.readers
    · obtain ⟨info, hentry, hsame⟩ := h.listed reader hold
      have hne := (h.busy hold hentry).2.2
      refine ⟨after info, ?_, (hserial info).trans hsame⟩
      exact (hspares.left _ info hentry hne (hleft reader hold hmem info hentry)).1
    · obtain ⟨-, info', -, -, hentry', hsame⟩ := hopened reader hmem hold
      exact ⟨info', hentry', hsame⟩
  nextSerial_le := hspares.nextSerial_le
  left := by
    intro reader hmem hmem'
    obtain ⟨info, hentry, -⟩ := h.listed reader hmem
    have hne := (h.busy hmem hentry).2.2
    have hkept := hspares.left _ info hentry hne (hleft reader hmem hmem' info hentry)
    -- an entry with streams keeps its body
    refine ⟨?_, fun i hi hres => ⟨after info, hkept.1, ?_⟩⟩
    · show t.disk.file (makeCachedFilename t.cacheRootDir reader.key) = _
      rw [hspares.cacheRootDir_eq]
      exact hkept.2
    · rw [hentry] at hi
      cases hi
      have hkey : info.key = reader.key := (h.steady.wf.entry_eq_some_iff.mp hentry).2
      exact hreserved info (hkey ▸ hres)
  gone := by
    intro reader hmem hout info hentry hres
    have hne := (h.busy hmem hentry).2.2
    exact hspares.gone _ info hentry hne
      ⟨hgone reader hmem hout info hentry, hreserved info (.inl hres)⟩
  known := hspares.known
  opened := by
    intro reader hmem hnew
    obtain ⟨info, -, hentry, hsame, -⟩ := hopened reader hmem hnew
    exact ⟨info, hentry, hsame⟩

/-- A call after which the same streams are open. -/
theorem respects_of_same {s : System} {action : Action} (h : Served s)
    (hspares : Spares id (start s.cache action) t) (hinv : CacheReaders.Inv ⟨t, s.readers⟩)
    (hcall : ∀ key, action.call ≠ .remove key) : Respects s action.call ⟨t, s.readers⟩ :=
  respects_of_spares h hspares hinv (fun _ => rfl)
    (fun _ hi => hi.resolve_right (hcall _))
    (fun _ hmem _ _ hentry => not_ended_of_busy (h.busy hmem hentry).2.2)
    (fun _ hmem hout => absurd hmem hout) fun _ hmem hnew => absurd hmem hnew

/-- A call that may open a stream. -/
theorem respects_of_counts {s : System} {action : Action} {streamOf : α → CacheStream}
    {x : CacheExec (Option α)} (h : Served s) (hcall : ∀ key, action.call ≠ .remove key)
    (hx : wp x (fun a t => Counts key (start s.cache action) (a.map streamOf) t)
      (fun _ t => Spares id (start s.cache action) t) (start s.cache action))
    (hinv : CacheReaders.Inv ⟨(exec x (start s.cache action)).2,
      open_ key streamOf s.readers (exec x (start s.cache action)).1⟩) :
    Respects s action.call ⟨(exec x (start s.cache action)).2,
      open_ key streamOf s.readers (exec x (start s.cache action)).1⟩ := by
  unfold wp at hx
  rcases hrun : exec x (start s.cache action) with ⟨r, t⟩
  rw [hrun] at hx hinv
  cases r with
  -- nothing was opened, and no stream has changed
  | error e => exact respects_of_same h hx hinv hcall
  | ok found =>
    cases found with
    | none => exact respects_of_same h hx hinv hcall
    | some a =>
      obtain ⟨info, hentry, hserial, hreserved, hentry', hspares⟩ := hx
      have hentry : s.cache.entry key = some info := hentry
      refine respects_of_spares h hspares hinv (fun i => ?_) (fun i hi => ?_)
        (fun reader hmem _ i hi => ?_) (fun reader hmem hout => ?_) fun reader hmem hnew => ?_
      · unfold counting
        split <;> rfl
      · have hres := hi.resolve_right (hcall _)
        unfold counting
        split <;> exact hres
      -- the entry that was opened counts one stream more
      · by_cases hkey : i.key = key
        · have hreader : i.key = reader.key := (h.steady.wf.entry_eq_some_iff.mp hi).2
          rw [← hreader, hkey, hentry] at hi
          cases hi
          have hsame : counting key info = info.addDataRef := if_pos hkey
          rw [hsame]
          exact fun hended => absurd (hreserved.symm.trans hended.2) Bool.false_ne_true
        · have hsame : counting key i = i := if_neg hkey
          rw [hsame]
          exact not_ended_of_busy (h.busy hmem hi).2.2
      · exact absurd (List.mem_cons_of_mem _ hmem) hout
      -- the new stream, or one that was open
      · rcases List.mem_cons.mp hmem with rfl | hold
        · exact ⟨info, info.addDataRef, hentry, hserial.symm, hentry', hserial.symm⟩
        · exact absurd hold hnew

/-- The close of a stream. -/
theorem respects_close {s : System} {action : Action} {reader : Reader} (h : Served s)
    (hcall : action.call = .close reader) (hmem : reader ∈ s.readers)
    (hspares : Spares (releasing reader.key) (start s.cache action) t)
    (hinv : CacheReaders.Inv ⟨t, s.readers.erase reader⟩) :
    Respects s action.call ⟨t, s.readers.erase reader⟩ := by
  have hserial : ∀ i : HttpCacheInfo, (releasing reader.key i).serial = i.serial := by
    intro i
    unfold releasing
    split
    · exact serial_releaseDataRef
    · rfl
  -- an open stream of the key is a stream of the entry that is released
  have hsame : ∀ other ∈ s.readers, other.key = reader.key → other = reader := by
    intro other hother hkey
    obtain ⟨info, hentry, hinfo⟩ := h.listed reader hmem
    have hentry' : s.cache.entry other.key = some info := hkey ▸ hentry
    have hother_serial := (h.busy hother hentry').1
    have heq : other.serial = reader.serial := hother_serial.symm.trans hinfo
    cases other
    cases reader
    exact congrArg₂ Reader.mk hkey heq
  refine respects_of_spares h hspares hinv hserial (fun i hi => ?_)
    (fun other hother hstill i hi => ?_) (fun other hother hout i hi => ?_)
    fun other hother hnew => absurd (List.mem_of_mem_erase hother) hnew
  · have hres := hi.resolve_right (by rw [hcall]; exact nofun)
    unfold releasing HttpCacheInfo.releaseDataRef
    split
    · split <;> exact hres
    · exact hres
  · obtain ⟨-, hcount, hne⟩ := h.busy hother hi
    -- the entry of the stream, or one that is not touched
    by_cases hkey : i.key = reader.key
    · have hown : i.key = other.key := (h.steady.wf.entry_eq_some_iff.mp hi).2
      have hother_eq := hsame other hother (hown.symm.trans hkey)
      subst hother_eq
      have hreleasing : releasing other.key i = i.releaseDataRef := if_pos hkey
      rw [hreleasing]
      -- one more stream of the entry is open
      have hless := toNat_releaseDataRef hne
      have hpos : 0 < (s.readers.erase other).count other := List.count_pos_iff.mpr hstill
      rw [List.count_erase_self] at hpos
      intro hended
      rw [hended.1] at hless
      have hone : (0 : UInt32).toNat + 1 = i.dataRefCount.toNat := hless
      rw [hcount] at hone
      have hzero : (0 : UInt32).toNat = 0 := rfl
      omega
    · have hreleasing : releasing reader.key i = i := if_neg hkey
      rw [hreleasing]
      exact not_ended_of_busy hne
  -- the stream that is not open any more is the one that was closed
  · have hother_eq : other = reader := by
      by_contra hne
      exact hout ((List.mem_erase_of_ne hne).mpr hother)
    subst hother_eq
    obtain ⟨-, hcount, hne⟩ := h.busy hother hi
    have hkey : i.key = other.key := (h.steady.wf.entry_eq_some_iff.mp hi).2
    have hreleasing : releasing other.key i = i.releaseDataRef := if_pos hkey
    have hless := toNat_releaseDataRef hne
    have hnone : (s.readers.erase other).count other = 0 := List.count_eq_zero.mpr hout
    rw [List.count_erase_self] at hnone
    rw [hreleasing]
    refine UInt32.toNat_inj.mp ?_
    show i.releaseDataRef.dataRefCount.toNat = 0
    omega

/-- No counter overflows, and no stream outlives its entry. -/
theorem ownRelease_of_plain {s : System} {action : Action} (h : Served s)
    (hplain : Plain s action) {s' : System} (hstep : step json s action = some s') :
    OwnRelease s action := by
  have hroom : s.readers.length < maxOpenFiles → ∀ info, s.readersOf info + 1 < 2 ^ 32 := by
    intro hlt info
    have hle : s.readersOf info ≤ s.readers.length := List.count_le_length
    unfold maxOpenFiles at hlt
    omega
  obtain ⟨-, hplain⟩ := hplain
  intro info hinfo
  have hentry := (mem_infos_iff h.counted.valid).mp hinfo
  unfold CacheReaders.step at hstep
  cases hcall : action.call with
  | getData key =>
    rw [hcall] at hplain
    exact fun _ => hroom hplain info
  | get key =>
    rw [hcall] at hplain
    exact fun _ => hroom hplain info
  | close reader =>
    rw [hcall] at hstep
    dsimp only at hstep
    by_cases hmem : reader ∈ s.readers
    · intro hkey
      exact .inl (h.busy hmem (hkey ▸ hentry)).1
    · rw [if_neg hmem] at hstep
      cases hstep
  | _ => trivial

/-- So does each plain step. -/
theorem step_respects {s s' : System} {action : Action} (h : Served s) (hplain : Plain s action)
    (hstep : step json s action = some s') : Respects s action.call s' := by
  have hinv : CacheReaders.Inv s' :=
    step_inv s action s' h.counted (ownRelease_of_plain h hplain hstep) hstep
  obtain ⟨hfaults, hplain⟩ := hplain
  have hq : Quiet (start s.cache action) := h.steady.quiet_start hfaults
  unfold CacheReaders.step at hstep
  -- one case for each operation of the cache
  cases hcall : action.call with
  | getMetadata key =>
    rw [hcall] at hstep
    cases hstep
    have hother : ∀ k, action.call ≠ .remove k := by rw [hcall]; exact nofun
    rw [← hcall]
    exact respects_of_same h (wp_final (spares_getMetadata hq key)) hinv hother
  | getData key =>
    rw [hcall] at hstep
    cases hstep
    have hother : ∀ k, action.call ≠ .remove k := by rw [hcall]; exact nofun
    rw [← hcall]
    have hx : wp (getData key) (fun a t => Counts key (start s.cache action) (a.map id) t)
        (fun _ t => Spares id (start s.cache action) t) (start s.cache action) :=
      wp_mono (counts_getData hq key) (fun a t ht => by rwa [Option.map_id]) fun _ _ he => he
    exact respects_of_counts h hother hx hinv
  | get key =>
    rw [hcall] at hstep
    cases hstep
    have hother : ∀ k, action.call ≠ .remove k := by rw [hcall]; exact nofun
    rw [← hcall]
    exact respects_of_counts h hother (counts_get hq key) hinv
  | close reader =>
    rw [hcall] at hstep
    dsimp only at hstep
    -- the stream is one of those that are open
    by_cases hmem : reader ∈ s.readers
    · rw [if_pos hmem] at hstep
      cases hstep
      rw [← hcall]
      refine respects_close h hcall hmem (wp_final ?_) hinv
      exact wp_mono (spares_releaseData hq reader.key) (fun _ _ ht => ht) fun _ _ he => he.elim
    · rw [if_neg hmem] at hstep
      cases hstep
  | putMetadata key httpCacheMetadata =>
    rw [hcall] at hstep
    cases hstep
    have hother : ∀ k, action.call ≠ .remove k := by rw [hcall]; exact nofun
    rw [← hcall]
    exact respects_of_same h (wp_final (spares_putMetadata hq key httpCacheMetadata)) hinv hother
  | put key httpCacheMetadata path =>
    rw [hcall] at hstep hplain
    cases hstep
    have hother : ∀ k, action.call ≠ .remove k := by rw [hcall]; exact nofun
    rw [← hcall]
    refine respects_of_same h (wp_final ?_) hinv hother
    exact wp_mono (spares_put hq hplain.1 hplain.2) (fun _ _ ht => ht) fun _ _ he => he.elim
  | remove key =>
    rw [hcall] at hstep
    cases hstep
    have hspares : Spares (reserving key) (start s.cache action)
        (exec (HttpFileCache.remove key) (start s.cache action)).2 := by
      -- a removal of an entry that is read reserves it
      refine wp_final ?_
      exact wp_mono (spares_remove hq key) (fun _ _ ht => ht) fun _ _ he => he.elim
    rw [← hcall]
    refine respects_of_spares h hspares hinv (fun i => ?_) (fun i hi => ?_)
      (fun reader hmem _ i hi hended => ?_) (fun _ hmem hout => absurd hmem hout)
      fun _ hmem hnew => absurd hmem hnew
    · unfold reserving
      split <;> rfl
    · unfold reserving
      rw [hcall] at hi
      by_cases hkey : i.key = key
      · rw [if_pos hkey]
      · rw [if_neg hkey]
        refine hi.resolve_right fun heq => hkey ?_
        cases heq
        rfl
    -- the entry has readers, so it is only reserved
    · have hne := (h.busy hmem hi).2.2
      unfold reserving at hended
      split at hended
      · exact hne hended.1
      · exact hne hended.1
  | purge mayDeleteIfBusy =>
    rw [hcall] at hstep hplain
    cases hstep
    have hother : ∀ k, action.call ≠ .remove k := by rw [hcall]; exact nofun
    -- the condition leaves out a `purge` by force
    have hforced : mayDeleteIfBusy = false := hplain
    subst hforced
    rw [← hcall]
    refine respects_of_same h (wp_final ?_) hinv hother
    exact wp_mono (spares_purge hq) (fun _ _ ht => ht) fun _ _ he => he.elim
  | createFile path content =>
    rw [hcall] at hstep hplain
    cases hstep
    have hother : ∀ k, action.call ≠ .remove k := by rw [hcall]; exact nofun
    rw [← hcall]
    exact respects_of_same h (spares_createFile hq content hplain) hinv hother

/-! ## The first call -/

/-- Nothing has been called so far. -/
def Fresh (s : System) : Prop :=
  s.readers = [] ∧ ∃ cacheRootDir maxSize disk, cacheRootDir ≠ "" ∧
    s.cache = construct cacheRootDir maxSize disk

/-- A call does after the initialization what it does when that is left to it. -/
theorem exec_begun {c c' : HttpFileCache} {x : CacheExec α}
    {handler : CacheException → CacheExec α} (hinit : exec initializeCache c = (.ok (), c'))
    (hstarted : c'.Started) :
    exec (Exec.tryCatch (initializeCache >>= fun _ => x) handler) c =
      exec (Exec.tryCatch (initializeCache >>= fun _ => x) handler) c' := by
  rw [exec_tryCatch, exec_tryCatch, exec_bind_ok hinit,
    exec_bind_ok (exec_initializeCache_started hstarted)]

/-- After the first call the cache is initialised. -/
theorem step_begun {cache c' : HttpFileCache} {action : Action} {readers : List Reader}
    (hinit : exec initializeCache (start cache action) = (.ok (), c')) (hstarted : c'.Started)
    (hsame : start c' action = c') (hclose : ∀ reader, action.call ≠ .close reader)
    (hcreate : ∀ path content, action.call ≠ .createFile path content) :
    step json ⟨cache, readers⟩ action = step json ⟨c', readers⟩ action := by
  unfold CacheReaders.step
  dsimp only
  rw [hsame]
  -- every operation initializes the cache first, so it can have been done before
  cases hcall : action.call with
  | getMetadata key =>
    have hrun : exec (getMetadata json key) (start cache action) = exec (getMetadata json key) c' :=
      exec_begun hinit hstarted
    dsimp only
    rw [hrun]
  | getData key =>
    have hrun : exec (getData key) (start cache action) = exec (getData key) c' :=
      exec_begun hinit hstarted
    dsimp only
    rw [hrun]
  | get key =>
    have hrun : exec (HttpFileCache.get json key) (start cache action) =
      exec (HttpFileCache.get json key) c' := exec_begun hinit hstarted
    dsimp only
    rw [hrun]
  | close reader => exact absurd hcall (hclose reader)
  | putMetadata key httpCacheMetadata =>
    have hrun : exec (putMetadata json key httpCacheMetadata) (start cache action) =
      exec (putMetadata json key httpCacheMetadata) c' := exec_begun hinit hstarted
    dsimp only
    rw [hrun]
  | put key httpCacheMetadata path =>
    have hroom : exec (makeRoom key httpCacheMetadata.responseBodySize) (start cache action) =
      exec (makeRoom key httpCacheMetadata.responseBodySize) c' := exec_begun hinit hstarted
    have hrun : exec (put json key httpCacheMetadata path) (start cache action) =
        exec (put json key httpCacheMetadata path) c' := by
      unfold put
      rw [exec_bind, exec_bind, hroom]
    dsimp only
    rw [hrun]
  | remove key =>
    have hrun : exec (HttpFileCache.remove key) (start cache action) =
      exec (HttpFileCache.remove key) c' := exec_begun hinit hstarted
    dsimp only
    rw [hrun]
  | purge mayDeleteIfBusy =>
    have hrun : exec (purge mayDeleteIfBusy) (start cache action) =
      exec (purge mayDeleteIfBusy) c' := exec_begun hinit hstarted
    dsimp only
    rw [hrun]
  | createFile path content => exact absurd hcall (hcreate path content)

/-- The entries of the rows that were found. -/
theorem served_of_loading {fits : Prop} {c : HttpFileCache} (h : Loading fits c [] t)
    (hinit : t.cacheInitialized = true) : Served ⟨t, []⟩ where
  counted := by
    refine ⟨h.valid, fun _ hmem => absurd hmem List.not_mem_nil, fun k info hentry => ?_⟩
    rw [(h.idle k info hentry).1]
    rfl
  steady := by
    refine ⟨h.valid, .inl hinit, h.row_of_entry, fun k info hentry hended => ?_⟩
    exact absurd ((h.idle k info hentry).2.symm.trans hended.2) Bool.false_ne_true
  listed := fun _ hmem => absurd hmem List.not_mem_nil

/-- The first call leads out of the fresh state. -/
theorem step_fresh {s s' : System} {action : Action} (h : Fresh s) (hplain : Plain s action)
    (hstep : step json s action = some s') : Fresh s' ∨ Served s' := by
  obtain ⟨hreaders, cacheRootDir, maxSize, disk, hdir, hcache⟩ := h
  obtain ⟨cache, readers⟩ := s
  dsimp only at hreaders hcache
  subst hreaders hcache
  by_cases hclose : ∃ reader, action.call = .close reader
  -- no stream is open yet
  · obtain ⟨reader, hcall⟩ := hclose
    unfold CacheReaders.step at hstep
    rw [hcall] at hstep
    cases hstep
  by_cases hcreate : ∃ path content, action.call = .createFile path content
  · obtain ⟨path, content, hcall⟩ := hcreate
    unfold CacheReaders.step at hstep
    rw [hcall] at hstep
    cases hstep
    exact .inl ⟨rfl, cacheRootDir, maxSize, _, hdir, rfl⟩
  -- the first call initializes the cache
  · have hloaded : wp initializeCache
        (fun _ t => Loading (RowsFit maxSize disk.rows)
          (start (construct cacheRootDir maxSize disk) action) [] t ∧ t.cacheInitialized = true)
        (fun _ _ => False) (start (construct cacheRootDir maxSize disk) action) :=
      wp_initializeCache_construct hplain.1 hdir
    unfold wp at hloaded
    rcases hrun : exec initializeCache (start (construct cacheRootDir maxSize disk) action) with
      ⟨r, c'⟩
    rw [hrun] at hloaded
    cases r with
    | error e => exact hloaded.elim
    | ok _ =>
      obtain ⟨hc, hinit⟩ := hloaded
      have hsame : start c' action = c' := by
        have hnow : c'.disk.nowAtEpoch = action.nowAtEpoch := hc.nowAtEpoch_eq
        have hfaults : c'.disk.faults = action.faults := hc.faults_eq.trans hplain.1.symm
        unfold CacheReaders.start
        rw [← hnow, ← hfaults]
      have hserved : Served ⟨c', []⟩ := served_of_loading hc hinit
      rw [step_begun hrun (.inl hinit) hsame (fun reader hcall => hclose ⟨reader, hcall⟩)
        fun path content hcall => hcreate ⟨path, content, hcall⟩] at hstep
      have hplain' : Plain ⟨c', []⟩ action := by
        unfold Plain at hplain ⊢
        dsimp only at hplain ⊢
        rw [hc.cacheRootDir_eq]
        exact hplain
      exact .inr (step_respects hserved hplain' hstep).served

/-! ## Runs -/

/-- Before the first call, or in use. -/
def Running (s : System) : Prop := Fresh s ∨ Served s

/-- A plain step keeps the cache running. -/
theorem step_running (s : System) (action : Action) (s' : System) (h : Running s)
    (hplain : Plain s action) (hstep : step json s action = some s') : Running s' := by
  rcases h with hfresh | hserved
  · exact step_fresh hfresh hplain hstep
  · exact .inr (step_respects hserved hplain hstep).served

theorem running_init (cacheRootDir : String) (maxSize : UInt64) (disk : Disk) :
    Running (System.init cacheRootDir maxSize disk) := by
  by_cases hdir : cacheRootDir = ""
  · exact .inr ⟨inv_init _ _ _, ⟨⟨wf_construct _, nofun⟩, .inr hdir, nofun, nofun⟩, nofun⟩
  · exact .inl ⟨rfl, cacheRootDir, maxSize, disk, hdir, rfl⟩

/-- A state with an open stream. -/
theorem Running.served {s : System} (h : Running s) {reader : Reader} (hmem : reader ∈ s.readers) :
    Served s := by
  refine h.resolve_left fun hfresh => ?_
  rw [hfresh.1] at hmem
  cases hmem

/-- The removal of the entry that counts a stream was asked for, and its file was `file` then. -/
structure Pending (reader : Reader) (file : Option String) (s : System) : Prop where
  served : Served s
  serial_lt : reader.serial < s.cache.nextSerial
  still : reader ∈ s.readers → bodyFile s reader.key = file ∧
    ∃ info, s.cache.entry reader.key = some info ∧ info.reservedRemove = true
  done : reader ∉ s.readers → ∀ info, s.cache.entry reader.key = some info →
    info.serial ≠ reader.serial

/-- A removal stays pending while a stream is open. -/
theorem step_pending {reader : Reader} {file : Option String} (s : System) (action : Action)
    (s' : System) (h : Pending reader file s) (hplain : Plain s action)
    (hstep : step json s action = some s') : Pending reader file s' := by
  have hrespects := step_respects h.served hplain hstep
  refine ⟨hrespects.served, Nat.lt_of_lt_of_le h.serial_lt hrespects.nextSerial_le,
    fun hmem' => ?_, fun hout' info' hentry' => ?_⟩
  · by_cases hmem : reader ∈ s.readers
    · obtain ⟨hfile, info, hentry, hreserved⟩ := h.still hmem
      obtain ⟨hfile', hkept⟩ := hrespects.left reader hmem hmem'
      exact ⟨hfile'.trans hfile, hkept info hentry (.inl hreserved)⟩
    · -- its entry is gone, so no stream of it can be opened
      obtain ⟨info, hentry, hserial⟩ := hrespects.opened reader hmem' hmem
      exact absurd hserial (h.done hmem info hentry)
  · by_cases hmem : reader ∈ s.readers
    · obtain ⟨-, info, hentry, hreserved⟩ := h.still hmem
      have hgone := hrespects.gone reader hmem hout' info hentry hreserved
      have hnone : s'.cache.entry reader.key = none := congrArg Prod.fst hgone
      rw [hnone] at hentry'
      cases hentry'
    · rcases hrespects.known _ info' hentry' with ⟨info, hentry, hserial⟩ | hnew
      · exact hserial ▸ h.done hmem info hentry
      · have hlt := h.serial_lt
        omega

instance (s : System) (action : Action) : Decidable (Plain s action) := by
  obtain ⟨call, nowAtEpoch, faults⟩ := action
  delta Plain
  cases call <;> infer_instance

end EasyHttp.DeferredRemoval
