import EasyHttp.Cache.StoreCoherence

/-!
# Where the rows and the files of the entries come from

* `Carried`: an entry that is listed after a step is one that was there, with its file and its row
  (or the row that `putMetadata` wrote), or it is the one that `put` made;
* `step_carried`: so it is after every sound step;
* `answer_getMetadata`, `answer_getData`: what the calls that read answer is the row, and the
  file, of the entry that is listed.
-/

namespace EasyHttp.StoredBodies

open Exec HttpFileCache CacheReaders StoreCoherence

variable {json : PocoJson} {s t : HttpFileCache} {key : String} {α : Type}

/-! ## Calls that make no entry -/

/-- No entry has been made. -/
def SameSerial (s t : HttpFileCache) : Prop := t.nextSerial = s.nextSerial

instance : Std.Refl SameSerial := ⟨fun _ => rfl⟩

instance : IsTrans HttpFileCache SameSerial := ⟨fun _ _ _ hst htu => htu.trans hst⟩

/-- Only a put takes a serial. -/
theorem serial_onDisk (x : DiskExec α) : Keeps SameSerial (onDisk x) := fun _ => rfl

theorem serial_lru (x : LruListener CacheException Disk HttpCacheInfo →
    LruExec CacheException Disk HttpCacheInfo α) : Keeps SameSerial (lru x) := fun _ => rfl

theorem serial_deleteCacheFile : Keeps SameSerial deleteCacheFile :=
  keeps_bind (serial_onDisk _) fun _ => keeps_pure _

theorem serial_deleteCorruptedCacheFile : Keeps SameSerial deleteCorruptedCacheFile := by
  unfold deleteCorruptedCacheFile
  refine keeps_bind (keeps_modifyState fun _ => rfl) fun _ => ?_
  refine keeps_bind (fun _ => rfl) fun _ => keeps_bind serial_deleteCacheFile fun _ => ?_
  refine keeps_bind keeps_getState fun c => keeps_bind (serial_onDisk _) fun fileLists => ?_
  refine keeps_bind serial_deleteCacheFile fun _ => keeps_forEach (fun path => ?_) fileLists
  exact keeps_bind (serial_onDisk _) fun _ => keeps_pure _

/-- Whatever is done about a database exception takes none. -/
theorem serial_catchSql {corrupted failed : CacheExec α} (hcorrupted : Keeps SameSerial corrupted)
    (hfailed : Keeps SameSerial failed) (e : CacheException) :
    Keeps SameSerial (catchSql corrupted failed e) := by
  cases e with
  | http e => exact keeps_throw _
  | sql e =>
    cases e with
    | databaseCorrupt message =>
      exact keeps_bind serial_deleteCorruptedCacheFile fun _ => hcorrupted
    | _ => exact hfailed

/-- A call that begins with the initialization, of a cache where nothing is left to load. -/
theorem serial_call {x corrupted failed : CacheExec α} (hs : Synced s) (hx : Keeps SameSerial x)
    (hcorrupted : Keeps SameSerial corrupted) (hfailed : Keeps SameSerial failed) :
    SameSerial s (exec (Exec.tryCatch (initializeCache >>= fun _ => x)
      (catchSql corrupted failed)) s).2 := by
  have hhandled : ∀ e t, SameSerial s t → wp (catchSql corrupted failed e)
      (fun _ u => SameSerial s u) (fun _ u => SameSerial s u) t := fun e t hst =>
    wp_mono (wp_of_keeps (serial_catchSql hcorrupted hfailed e) t)
      (fun _ _ htu => trans_of _ hst htu) fun _ _ htu => trans_of _ hst htu
  refine wp_final ?_
  rw [wp_tryCatch, wp_bind]
  refine wp_mono (wp_initializeCache hs.wf hs.emptyUntilInitialized) (fun _ t ht => ?_)
    fun e t ht => hhandled e t ht.1.nextSerial_eq
  have hst : SameSerial s t := ht.1.nextSerial_eq
  exact wp_mono (wp_of_keeps hx t) (fun _ _ htu => trans_of _ hst htu)
    fun e u htu => hhandled e u (trans_of _ hst htu)

theorem serial_readMetadata (key : String) : Keeps SameSerial (readMetadata json key) := by
  unfold readMetadata
  refine keeps_bind (serial_onDisk _) fun metadata => ?_
  cases metadata with
  | none => exact keeps_pure _
  | some metadata => exact keeps_bind (serial_onDisk _) fun _ => keeps_pure _

theorem serial_createStreamFromCache (key : String) :
    Keeps SameSerial (createStreamFromCache key) :=
  keeps_bind keeps_getState fun _ => serial_onDisk _

theorem serial_addReader (key : String) (info : HttpCacheInfo) (content : String) :
    Keeps SameSerial (addReader key info content) :=
  keeps_bind (serial_lru _) fun _ => keeps_pure _

/-- The calls that look an entry up and go on only if it is not reserved for removal. -/
theorem serial_found {f : HttpCacheInfo → CacheExec (Option α)} (hs : Synced s)
    (hf : ∀ info, Keeps SameSerial (f info)) :
    SameSerial s (exec (Exec.tryCatch (do
      initializeCache
      match ← lru (HttpLruCacheStrategy.get · key) with
      | none => return none
      | some info =>
        if info.reservedRemove then
          return none
        f info) (catchSql (return none) (return none))) s).2 := by
  refine serial_call hs (keeps_bind (serial_lru _) fun found => ?_) (keeps_pure _) (keeps_pure _)
  cases found with
  | none => exact keeps_pure _
  | some info =>
    dsimp only
    split
    · exact keeps_pure _
    · exact hf info

/-- Reading takes no serial. -/
theorem serial_getMetadata (hs : Synced s) (key : String) :
    SameSerial s (exec (getMetadata json key) s).2 := serial_found hs fun _ => serial_readMetadata key

theorem serial_getData (hs : Synced s) (key : String) :
    SameSerial s (exec (getData key) s).2 := by
  refine serial_found hs fun info => keeps_bind (serial_createStreamFromCache key) fun content => ?_
  cases content with
  | none => exact keeps_pure _
  | some content => exact serial_addReader key info content

theorem serial_get (hs : Synced s) (key : String) :
    SameSerial s (exec (HttpFileCache.get json key) s).2 := by
  refine serial_found hs fun info => keeps_bind (serial_readMetadata key) fun metadata => ?_
  cases metadata with
  | none => exact keeps_pure _
  | some metadata =>
    refine keeps_bind (serial_createStreamFromCache key) fun content => ?_
    cases content with
    | none => exact keeps_pure _
    | some content => exact keeps_bind (serial_addReader key info content) fun _ => keeps_pure _

/-- Nor does writing metadata. -/
theorem serial_putMetadata (hs : Synced s) (key : String) (httpCacheMetadata : HttpCacheMetadata) :
    SameSerial s (exec (putMetadata json key httpCacheMetadata) s).2 := by
  refine serial_call hs (keeps_bind (serial_lru _) fun found => ?_) (keeps_pure _) (keeps_pure _)
  cases found with
  | none => exact keeps_pure _
  | some info =>
    dsimp only
    split
    · exact keeps_pure _
    · exact keeps_bind (serial_onDisk _) fun _ => keeps_pure _

/-- Nor does a removal. -/
theorem serial_remove (hs : Synced s) (key : String) :
    SameSerial s (exec (HttpFileCache.remove key) s).2 :=
  serial_call hs (serial_lru _) (keeps_pure _) (keeps_pure _)

/-- Nor does a purge. -/
theorem serial_purge (hs : Synced s) (mayDeleteIfBusy : Bool) :
    SameSerial s (exec (purge mayDeleteIfBusy) s).2 := by
  refine serial_call hs (keeps_bind (serial_lru _) fun ret => ?_) (keeps_pure _) (keeps_pure _)
  cases ret with
  | false => exact keeps_pure _
  | true => exact keeps_bind serial_deleteCacheFile fun _ => keeps_pure _

/-- Nor does a release. -/
theorem serial_releaseData (key : String) : Keeps SameSerial (releaseData key) := by
  unfold releaseData
  refine keeps_bind (serial_lru _) fun found => ?_
  cases found with
  | none => exact keeps_pure _
  | some info =>
    dsimp only
    split
    · exact keeps_pure _
    · refine keeps_tryCatch (keeps_bind (serial_lru _) fun _ => keeps_pure _) ?_
      exact serial_catchSql (keeps_pure _) (keeps_pure _)

/-! ## What is answered -/

/-- A call that answers nothing after a failure. -/
theorem wp_answer {Q : α → Prop} {x : CacheExec (Option α)}
    (hx : wp x (fun a _ => ∀ b, a = some b → Q b) (fun _ _ => True) s) :
    wp (Exec.tryCatch x (catchSql (return none) (return none)))
      (fun a _ => ∀ b, a = some b → Q b) (fun _ _ => True) s := by
  have hnone : ∀ t, wp (return none : CacheExec (Option α)) (fun a _ => ∀ b, a = some b → Q b)
      (fun _ _ => True) t := fun _ => nofun
  rw [wp_tryCatch]
  refine wp_mono hx (fun _ _ h => h) fun e t _ => ?_
  cases e with
  | http e => exact trivial
  | sql e =>
    cases e with
    | databaseCorrupt message =>
      show wp (deleteCorruptedCacheFile >>= _) _ _ t
      rw [wp_bind]
      exact wp_mono (wp_trivial _ t) (fun _ u _ => hnone u) fun _ _ h => h
    | _ => exact hnone t

/-- What is found is the entry that is listed. -/
theorem wp_lookup {Q : α → HttpFileCache → Prop} {f : Option HttpCacheInfo → CacheExec α}
    (hs : Synced s)
    (hf : ∀ t, Untrimmed s t → wp (f (s.entry key)) Q (fun _ _ => True) t) :
    wp (do
      initializeCache
      f (← lru (HttpLruCacheStrategy.get · key))) Q (fun _ _ => True) s := by
  rw [wp_bind]
  refine wp_mono (wp_initializeCache hs.wf hs.emptyUntilInitialized) (fun _ t ht => ?_)
    fun _ _ _ => trivial
  rw [wp_bind]
  refine wp_mono (wp_get_entry ht.1.trims.wf key) (fun found u hu => ?_) fun _ _ he => he.elim
  obtain ⟨rfl, htu, -⟩ := hu
  have hentry : t.entry key = s.entry key := congrFun ht.1.entry_eq key
  rw [hentry]
  exact hf u (ht.1.trans htu)

/-- The metadata that are answered are read from the row of the entry. -/
theorem answer_getMetadata (hs : Synced s) {httpCacheMetadata : HttpCacheMetadata}
    (hrun : exec (getMetadata json key) s = (.ok (some httpCacheMetadata), t)) :
    ∃ info row, s.entry key = some info ∧ info.reservedRemove = false ∧
      s.disk.row key = some row ∧ row.getMetadata json key = .ok httpCacheMetadata := by
  have hanswer : wp (getMetadata json key) (fun a _ => ∀ m, a = some m → ∃ info row,
      s.entry key = some info ∧ info.reservedRemove = false ∧ s.disk.row key = some row ∧
        row.getMetadata json key = .ok m) (fun _ _ => True) s := by
    refine wp_answer (wp_lookup hs fun t ht => ?_)
    cases hentry : s.entry key with
    | none => exact nofun
    | some info =>
      dsimp only
      cases hreserved : info.reservedRemove with
      | true => exact nofun
      | false =>
        refine wp_mono (wp_readMetadata key) (fun a u hu m hm => ?_) fun _ _ _ => trivial
        obtain ⟨row, hrow, hread⟩ := hu.2 m hm
        have hsame : t.disk.row key = s.disk.row key :=
          congrArg (fun p => p.2.1) (ht.stored_eq key)
        exact ⟨info, row, rfl, hreserved, hsame ▸ hrow, hread⟩
  exact wp_ok hanswer hrun _ rfl

/-- The stream that is answered is the file of the entry, and is counted in it. -/
theorem answer_getData (hs : Synced s) {stream : CacheStream}
    (hrun : exec (getData key) s = (.ok (some stream), t)) :
    ∃ info, s.entry key = some info ∧ info.reservedRemove = false ∧
      stream.serial = info.serial ∧ (storedIn s key).2.2 = some stream.content := by
  have hanswer : wp (getData key) (fun a _ => ∀ stream, a = some stream → ∃ info,
      s.entry key = some info ∧ info.reservedRemove = false ∧ stream.serial = info.serial ∧
        (storedIn s key).2.2 = some stream.content) (fun _ _ => True) s := by
    refine wp_answer (wp_lookup hs fun t ht => ?_)
    cases hentry : s.entry key with
    | none => exact nofun
    | some info =>
      dsimp only
      cases hreserved : info.reservedRemove with
      | true => exact nofun
      | false =>
        show wp (createStreamFromCache key >>= _) _ _ t
        rw [wp_bind]
        refine wp_mono (wp_createStreamFromCache key) (fun content u hu => ?_)
          fun _ _ he => he.elim
        cases content with
        | none => exact nofun
        | some content =>
          have hfile : t.disk.file (makeCachedFilename t.cacheRootDir key) = some content :=
            hu.2 content rfl
          have hsame : t.disk.file (makeCachedFilename s.cacheRootDir key) =
              (storedIn s key).2.2 := congrArg (fun p => p.2.2) (ht.stored_eq key)
          rw [ht.cacheRootDir_eq, hsame] at hfile
          have hlisted : u.entry key = some info := by
            rw [hu.1.entry_eq, ht.entry_eq, hentry]
          refine wp_mono (wp_addReader (hu.1.lruCacheStrategy_eq ▸ ht.trims.wf) hlisted hreserved
            content) (fun a v hv stream hstream => ?_) fun _ _ _ => trivial
          rw [hv.1] at hstream
          cases hstream
          exact ⟨info, rfl, hreserved, rfl, hfile⟩
  exact wp_ok hanswer hrun _ rfl

/-! ## Steps -/

/-- The row that a step may write for an entry that was there. -/
def rowWritten (json : PocoJson) (action : Action) (k : String) (info : HttpCacheInfo)
    (row : Row) : Prop :=
  ∃ httpCacheMetadata, action.call = .putMetadata k httpCacheMetadata ∧ isWritable info = true ∧
    row = httpCacheMetadata.toRow json action.nowAtEpoch

/-- Where what is listed after a step comes from. -/
structure Carried (json : PocoJson) (s : System) (action : Action) (s' : System) : Prop where
  nextSerial_le : s.cache.nextSerial ≤ s'.cache.nextSerial
  left : ∀ k info', s'.cache.entry k = some info' → info'.serial < s.cache.nextSerial →
    ∃ info, s.cache.entry k = some info ∧ SameEntry info info' ∧
      (storedIn s'.cache k).2.2 = (storedIn s.cache k).2.2 ∧
      ∀ row', s'.cache.disk.row k = some row' →
        (∃ row, s.cache.disk.row k = some row ∧ row.Like row') ∨
          rowWritten json action k info row'
  made : ∀ k info', s'.cache.entry k = some info' → s.cache.nextSerial ≤ info'.serial →
    ∃ httpCacheMetadata path, action.call = .put k httpCacheMetadata path ∧
      (storedIn s'.cache k).2 = (some (httpCacheMetadata.toRow json action.nowAtEpoch),
        s.cache.disk.file path)

/-- The calls that write a row. -/
def writesRow : Call → Bool
  | .putMetadata _ _ | .put _ _ _ => true
  | _ => false

/-- After any other call, what is listed was there, with its file and its row. -/
theorem Carried.follows {s s' : System} {action : Action} (h : Carried json s action s')
    (hno : writesRow action.call = false) : Follows unwritten s.cache s'.cache := by
  intro k info' hentry'
  have hold : info'.serial < s.cache.nextSerial := by
    by_contra hnew
    obtain ⟨_, _, hcall, -⟩ := h.made k info' hentry' (Nat.le_of_not_lt hnew)
    rw [hcall] at hno
    cases hno
  obtain ⟨info, hentry, hsame, hfile, hrows⟩ := h.left k info' hentry' hold
  refine ⟨info, hentry, hsame, hfile, fun row' hrow' => .inl ?_⟩
  refine (hrows row' hrow').resolve_right ?_
  rintro ⟨_, hcall, -⟩
  rw [hcall] at hno
  cases hno

/-- A call that makes no entry. -/
theorem carried_of_follows {s : System} {action : Action} {c : HttpFileCache}
    {readers : List Reader} {written : String → HttpCacheInfo → Row → Prop}
    (hserial : SameSerial (start s.cache action) c) (hvalid : c.Valid)
    (hfollows : Follows written (start s.cache action) c)
    (hwritten : ∀ k info row, written k info row → rowWritten json action k info row) :
    Carried json s action ⟨c, readers⟩ where
  nextSerial_le := Nat.le_of_eq hserial.symm
  left := by
    intro k info' hentry' _
    obtain ⟨info, hentry, hsame, hfile, hrows⟩ := hfollows k info' hentry'
    exact ⟨info, hentry, hsame, hfile, fun row' hrow' =>
      (hrows row' hrow').imp_right (hwritten k info row')⟩
  made := by
    intro k info' hentry' hnew
    have hlt : info'.serial < c.nextSerial := hvalid.serial_lt k info' hentry'
    have hnext : c.nextSerial = s.cache.nextSerial := hserial
    omega

/-- What is left by a call that removes. -/
theorem follows_of_settles {after : String → HttpCacheInfo → HttpCacheInfo} {c : HttpFileCache}
    (h : Settles after s c) (hafter : ∀ k info, SameEntry info (after k info))
    (hold : ∀ k info', c.entry k = some info' → info'.serial < s.nextSerial) :
    Follows unwritten s c := by
  intro k info' hentry'
  rcases h.left k info' hentry' with ⟨info, hentry, hstored⟩ | hnew
  · have hinfo' : info' = after k info := by
      have he : c.entry k = some (after k info) := congrArg Prod.fst hstored
      rw [hentry'] at he
      exact Option.some.inj he
    have hrow : c.disk.row k = s.disk.row k := congrArg (fun p => p.2.1) hstored
    refine ⟨info, hentry, hinfo' ▸ hafter k info, congrArg (fun p => p.2.2) hstored,
      fun row hrow' => .inl ⟨row, hrow ▸ hrow', rfl⟩⟩
  · have hlt := hold k info' hentry'
    omega

/-- What is left of an entry after a call has the same reader. -/
theorem sameEntry_asBefore (call : Call) (k : String) (info : HttpCacheInfo) :
    SameEntry info (asBefore call k info) := by
  unfold asBefore
  cases call with
  | close reader =>
    dsimp only
    split
    · refine ⟨serial_releaseDataRef.symm, fun h => ?_⟩
      unfold HttpCacheInfo.releaseDataRef
      split <;> exact h
    · exact ⟨rfl, id⟩
  | remove removed =>
    dsimp only
    split
    · exact ⟨rfl, fun _ => rfl⟩
    · exact ⟨rfl, id⟩
  | _ => exact ⟨rfl, id⟩

/-- A call that removes and makes no entry. -/
theorem carried_of_settles {s : System} {action : Action} {c : HttpFileCache}
    {readers : List Reader} (hserial : SameSerial (start s.cache action) c)
    (hsettles : Settles (asBefore action.call) (start s.cache action) c) :
    Carried json s action ⟨c, readers⟩ := by
  have hold : ∀ k info', c.entry k = some info' →
      info'.serial < (start s.cache action).nextSerial := by
    intro k info' hentry'
    rw [← hserial]
    exact hsettles.synced.serial_lt k info' hentry'
  exact carried_of_follows hserial hsettles.synced.toValid
    (follows_of_settles hsettles (sameEntry_asBefore action.call) hold) fun _ _ _ h => h.elim

/-- A sound step carries the bodies of the entries that stay. -/
theorem step_carried {s s' : System} {action : Action} (h : InSync s) (hsound : Sound s action)
    (hstep : step json s action = some s') : Carried json s action s' := by
  have hs : Synced (start s.cache action) := h.start action
  -- nothing is written by a call that reads
  have hread : ∀ {c : HttpFileCache} {readers : List Reader},
      SameSerial (start s.cache action) c → Reads unwritten (start s.cache action) c →
        Carried json s action ⟨c, readers⟩ := fun hserial hreads =>
    carried_of_follows hserial hreads.stays.1.toValid hreads.follows fun _ _ _ h => h.elim
  have hremove : ∀ {c : HttpFileCache} {readers : List Reader}
      {after : String → HttpCacheInfo → HttpCacheInfo}, SameSerial (start s.cache action) c →
        Settles after (start s.cache action) c → (∀ k info, after k info =
          asBefore action.call k info) → Carried json s action ⟨c, readers⟩ :=
    fun hserial hsettles hsame =>
      carried_of_settles hserial (hsettles.congr fun k info _ => hsame k info)
  unfold Sound at hsound
  unfold CacheReaders.step at hstep
  cases hcall : action.call with
  | getMetadata key =>
    rw [hcall] at hstep hsound
    cases hstep
    exact hread (serial_getMetadata hs key) (wp_final (reads_getMetadata hs hsound key))
  | getData key =>
    rw [hcall] at hstep hsound
    cases hstep
    exact hread (serial_getData hs key) (wp_final (reads_getData hs hsound key))
  | get key =>
    rw [hcall] at hstep hsound
    cases hstep
    exact hread (serial_get hs key) (wp_final (reads_get hs hsound key))
  | close reader =>
    rw [hcall] at hstep hsound hremove
    dsimp only at hstep
    -- a stream that is not open is closed by nobody
    by_cases hmem : reader ∈ s.readers
    · rw [if_pos hmem] at hstep
      cases hstep
      exact hremove (serial_releaseData reader.key _)
        (wp_final (settles_releaseData hs hsound reader)) fun _ _ => rfl
    · rw [if_neg hmem] at hstep
      cases hstep
  | putMetadata key httpCacheMetadata =>
    rw [hcall] at hstep hsound
    cases hstep
    have hreads : Reads (WritesRow json key httpCacheMetadata action.nowAtEpoch)
      (start s.cache action) (exec (putMetadata json key httpCacheMetadata) _).2 :=
      wp_final (reads_putMetadata hs hsound.2 hsound.1)
    -- the row is written to the entry of the key, and to no other
    refine carried_of_follows (serial_putMetadata hs key _) hreads.stays.1.toValid hreads.follows
      fun k info row hrow => ?_
    obtain ⟨rfl, hwritable, hrow⟩ := hrow
    exact ⟨httpCacheMetadata, hcall, hwritable, hrow⟩
  | put key httpCacheMetadata path =>
    rw [hcall] at hstep hsound
    cases hstep
    have hputs : Puts json key httpCacheMetadata path (start s.cache action)
      (exec (put json key httpCacheMetadata path) _).2 := wp_final (puts_put hs hsound)
    obtain ⟨hsettles, hadds⟩ := hputs
    refine ⟨hsettles.nextSerial_le, fun k info' hentry' hlt => ?_, fun k info' hentry' hnew => ?_⟩
    -- an entry that was there before, or the one that was put
    · rcases hsettles.left k info' hentry' with ⟨info, hentry, hstored⟩ | hnew
      · have hinfo' : info' = info := by
          have he := (hentry'.symm.trans (congrArg Prod.fst hstored))
          exact Option.some.inj he
        have hrow := congrArg (fun p => p.2.1) hstored
        exact ⟨info, hentry, hinfo' ▸ ⟨rfl, id⟩, congrArg (fun p => p.2.2) hstored,
          fun row hrow' => .inl ⟨row, hrow.symm.trans hrow', rfl⟩⟩
      · exact absurd hlt (Nat.not_lt.mpr hnew)
    · obtain ⟨rfl, hstored⟩ := hadds k info' hentry' hnew
      exact ⟨httpCacheMetadata, path, hcall, hstored⟩
  | remove key =>
    rw [hcall] at hstep hsound hremove
    cases hstep
    exact hremove (serial_remove hs key) (wp_final (settles_remove hs hsound key)) fun _ _ => rfl
  | purge mayDeleteIfBusy =>
    rw [hcall] at hstep hsound hremove
    cases hstep
    exact hremove (serial_purge hs mayDeleteIfBusy)
      (wp_final (settles_purge hs hsound mayDeleteIfBusy)) fun _ _ => rfl
  | createFile path content =>
    rw [hcall] at hstep hsound hremove
    cases hstep
    have hserial : SameSerial (start s.cache action) { start s.cache action with
      disk := { (start s.cache action).disk with
        files := (start s.cache action).disk.files.set path content } } := rfl
    exact hremove hserial (settles_createFile hs content hsound) fun _ _ => rfl

end EasyHttp.StoredBodies
