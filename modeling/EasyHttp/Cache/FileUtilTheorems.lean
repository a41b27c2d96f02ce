import EasyHttp.Cache.HttpCacheDatabase
import EasyHttp.Library.ExecPost

/-!
# What the calls of the file system and the database do

`row` and `file` are what a key and a path lead to. Each function has one specification, which
tells its effect on these two and which failures it lets through:

* `Faults.From`: failures still to come, some of them already met;
* `wp_removeFileIfPresent`, `wp_moveFile`: the functions of `FileUtil`;
* `wp_deleteMetadata`, `wp_updateMetadata`, `wp_getMetadata`, …: those of `HttpCacheDatabase`.
-/

namespace EasyHttp

open Exec

namespace Disk

variable {s t u : Disk} {path : String}

/-- The file at a path. -/
def file (disk : Disk) : String → Option String := disk.files.find?

/-- The row of a key. -/
def row (disk : Disk) : String → Option Row := disk.rows.find?

/-- No file operation fails any more. -/
def FilesWork (disk : Disk) : Prop := ∀ fault ∈ disk.faults.file, fault = .none

instance (disk : Disk) : Decidable disk.FilesWork := inferInstanceAs (Decidable (∀ _ ∈ _, _))

/-- The failures to come are the last of those that were to come before. -/
def Later (s t : Disk) : Prop :=
  t.nowAtEpoch = s.nowAtEpoch ∧ t.faults.database <:+ s.faults.database ∧
    t.faults.file <:+ s.faults.file

/-- Nothing is changed but the failures to come. -/
def Same (s t : Disk) : Prop := Later s t ∧ t.files = s.files ∧ t.rows = s.rows

instance : Std.Refl Later := ⟨fun _ => ⟨rfl, List.suffix_refl _, List.suffix_refl _⟩⟩

instance : IsTrans Disk Later := by
  constructor
  intro s t u hst htu
  exact ⟨htu.1.trans hst.1, htu.2.1.trans hst.2.1, htu.2.2.trans hst.2.2⟩

instance : Std.Refl Same := ⟨fun s => ⟨refl_of Later s, rfl, rfl⟩⟩

instance : IsTrans Disk Same := by
  constructor
  intro s t u hst htu
  exact ⟨trans_of Later hst.1 htu.1, htu.2.1.trans hst.2.1, htu.2.2.trans hst.2.2⟩

/-- Files that work go on to work. -/
theorem Later.filesWork (h : Later s t) (hs : s.FilesWork) : t.FilesWork :=
  fun fault hfault => hs fault (h.2.2.subset hfault)

/-- What the database will meet is among what it was to meet. -/
theorem Later.mem_database (h : Later s t) {fault : Fault} (hfault : fault ∈ t.faults.database) :
    fault ∈ s.faults.database := h.2.1.subset hfault

theorem Same.file (h : Same s t) : t.file = s.file := congrArg SortedMap.find? h.2.1

theorem Same.row (h : Same s t) : t.row = s.row := congrArg SortedMap.find? h.2.2

/-- A fault that is met is in the list. -/
theorem mem_of_headD_ne {l : List Fault} (h : l.headD .none ≠ .none) : l.headD .none ∈ l := by
  cases l with
  | nil => exact absurd rfl h
  | cons fault l => exact List.mem_cons_self

/-- What a file operation throws. -/
def FileFails (disk : Disk) (e : CacheException) : Prop :=
  ¬disk.FilesWork ∧ ∃ message, e = .http (.poco message)

/-- What a call of the database throws. -/
def DatabaseFails (disk : Disk) (e : CacheException) : Prop :=
  (∃ message, e = .sql (.databaseCorrupt message)) ∧ Fault.corrupt ∈ disk.faults.database ∨
    (∃ message, e = .sql (.execution message)) ∧ Fault.fails ∈ disk.faults.database

/-- A call of the file system changes nothing by itself. -/
theorem wp_fileCall (s : Disk) (message : String) :
    wp (fileCall message) (fun _ t => Same s t) (fun e t => Same s t ∧ FileFails s e) s := by
  have hsame : Same s { s with faults := { s.faults with file := s.faults.file.tail } } :=
    ⟨⟨rfl, List.suffix_refl _, List.tail_suffix _⟩, rfl, rfl⟩
  unfold fileCall
  rw [wp_bind, wp_getState, wp_bind, wp_modifyState]
  by_cases hfault : s.faults.file.headD .none ≠ .none
  · rw [if_pos hfault, wp_throw]
    exact ⟨hsame, fun hwork => hfault (hwork _ (mem_of_headD_ne hfault)), message, rfl⟩
  · rw [if_neg hfault, wp_pure]
    exact hsame

/-- The call at hand meets the first of the failures to come. -/
theorem wp_databaseCall (s : Disk) :
    wp databaseCall (fun _ t => Same s t ∧ s.faults.database.headD .none = .none)
      (fun e t => Same s t ∧ DatabaseFails s e ∧ s.faults.database.headD .none ≠ .none) s := by
  have hsame : Same s { s with faults := { s.faults with database := s.faults.database.tail } } :=
    ⟨⟨rfl, List.tail_suffix _, List.suffix_refl _⟩, rfl, rfl⟩
  unfold databaseCall
  rw [wp_bind, wp_getState, wp_bind, wp_modifyState]
  cases hfault : s.faults.database.headD .none with
  | none => exact ⟨hsame, rfl⟩
  | fails =>
    have hmem := mem_of_headD_ne (l := s.faults.database) (by rw [hfault]; exact nofun)
    rw [hfault] at hmem
    exact ⟨hsame, .inr ⟨⟨_, rfl⟩, hmem⟩, nofun⟩
  | corrupt =>
    have hmem := mem_of_headD_ne (l := s.faults.database) (by rw [hfault]; exact nofun)
    rw [hfault] at hmem
    exact ⟨hsame, .inl ⟨⟨_, rfl⟩, hmem⟩, nofun⟩

end Disk

open Disk

/-! ## Files -/

/-- `exist` tells whether there is a file, or throws. -/
theorem wp_exist (s : Disk) (path : String) :
    wp (File.exist path) (fun ret t => Same s t ∧ ret = (s.file path).isSome)
      (fun e t => Same s t ∧ FileFails s e) s := by
  unfold File.exist
  rw [wp_bind]
  refine wp_mono (wp_fileCall s path) (fun _ t ht => ⟨ht, ?_⟩) fun _ _ he => he
  show (t.file path).isSome = _
  rw [ht.file]

/-- A handler of `Poco::Exception` leaves no failure of a file. -/
theorem wp_catchPoco {α : Type} {handler : DiskExec α} {e : CacheException} {disk s : Disk}
    (he : FileFails disk e) {Q : α → Disk → Prop} {E : CacheException → Disk → Prop}
    (h : wp handler Q E s) : wp (catchPoco handler e) Q E s := by
  obtain ⟨-, message, rfl⟩ := he
  exact h

/-- Only the file at one path may be gone. -/
def RemovesFile (path : String) (s : Disk) (ret : Bool) (t : Disk) : Prop :=
  Later s t ∧ t.rows = s.rows ∧ (s.FilesWork → ret = true) ∧
    (t.file = Function.update s.file path none ∨ ret = false ∧ t.file = s.file)

/-- It throws nothing. -/
theorem wp_removeFileIfPresent (s : Disk) (path : String) :
    wp (FileUtil.removeFileIfPresent path) (RemovesFile path s) (fun _ _ => False) s := by
  -- wherever a file operation fails, the answer is false
  have hfails : ∀ t, Later s t → t.rows = s.rows → ¬s.FilesWork →
      (t.file = Function.update s.file path none ∨ t.file = s.file) →
      RemovesFile path s false t := by
    intro t hlater hrows hwork hfile
    exact ⟨hlater, hrows, fun h => absurd h hwork, hfile.imp_right fun h => ⟨rfl, h⟩⟩
  unfold FileUtil.removeFileIfPresent
  rw [wp_tryCatch, wp_bind]
  refine wp_mono (wp_exist s path) (fun found t ht => ?_) fun e t ht =>
    wp_catchPoco ht.2 (hfails t ht.1.1 ht.1.2.2 ht.2.1 (.inr ht.1.file))
  obtain ⟨hst, rfl⟩ := ht
  -- there is no file, so there is nothing to do
  cases hfile : s.file path with
  | none =>
    refine ⟨hst.1, hst.2.2, fun _ => rfl, .inl ?_⟩
    rw [hst.file, ← hfile, Function.update_eq_self]
  | some content =>
    show wp (File.isFile path >>= _) _ _ t
    rw [wp_bind]
    refine wp_mono (wp_exist t path) (fun regular u hu => ?_) fun e u hu =>
      wp_catchPoco hu.2 (hfails u (trans_of Later hst.1 hu.1.1) (hu.1.2.2.trans hst.2.2)
        (fun h => hu.2.1 (hst.1.filesWork h)) (.inr (hu.1.file.trans hst.file)))
    obtain ⟨htu, hregular⟩ := hu
    rw [hst.file, hfile] at hregular
    subst hregular
    have hsu := trans_of Same hst htu
    show wp (File.remove path >>= _) _ _ u
    unfold File.remove
    rw [wp_bind, wp_bind]
    -- the file is removed, and looked for once more
    refine wp_mono (wp_fileCall u path) (fun _ v hv => ?_) fun e v hv =>
      wp_catchPoco hv.2 (hfails v (trans_of Later hsu.1 hv.1.1) (hv.1.2.2.trans hsu.2.2)
        (fun h => hv.2.1 (hsu.1.filesWork h)) (.inr (hv.1.file.trans hsu.file)))
    have hsv := trans_of Same hsu hv
    have hfound : v.files.find? path = some content := by
      show v.file path = _
      rw [hsv.file, hfile]
    rw [wp_bind, wp_getState, hfound]
    dsimp only
    rw [wp_modifyState, wp_bind]
    have herased : Disk.file { v with files := v.files.erase path } =
        Function.update s.file path none := by
      rw [← hsv.file]
      exact SortedMap.find?_erase_eq _ _
    refine wp_mono (wp_exist _ path) (fun left w hw => ?_) fun e w hw =>
      wp_catchPoco hw.2 (hfails w (trans_of Later hsv.1 hw.1.1) (hw.1.2.2.trans hsv.2.2)
        (fun h => hw.2.1 (hsv.1.filesWork h)) (.inl (hw.1.file.trans herased)))
    obtain ⟨hvw, hleft⟩ := hw
    rw [herased, Function.update_self] at hleft
    subst hleft
    exact ⟨trans_of Later hsv.1 hvw.1, hvw.2.2.trans hsv.2.2, fun _ => rfl,
      .inl (hvw.file.trans herased)⟩

/-- A file that was moved is at its new path and no longer at the old one; otherwise only the file
that was to be replaced may be gone. -/
def MovesFile (sourceFile destinationFile : String) (s : Disk) (ret : Bool) (t : Disk) : Prop :=
  Later s t ∧ t.rows = s.rows ∧
    if ret then ∃ content, s.file sourceFile = some content ∧
      t.file =
        Function.update (Function.update s.file sourceFile none) destinationFile (some content)
    else (s.FilesWork → s.file sourceFile = none) ∧
      (t.file = s.file ∨ t.file = Function.update s.file destinationFile none)

/-- What stood at the new path plays no part in a move. -/
theorem file_renamed {f g : String → Option String} {sourceFile destinationFile content : String}
    (hg : g = f ∨ g = Function.update f destinationFile none) :
    Function.update (Function.update g sourceFile none) destinationFile (some content) =
      Function.update (Function.update f sourceFile none) destinationFile (some content) := by
  rcases hg with rfl | rfl
  · rfl
  · funext p
    simp only [Function.update_apply]
    by_cases hp : p = destinationFile
    · rw [if_pos hp, if_pos hp]
    · rw [if_neg hp, if_neg hp, if_neg hp]

/-- `moveFile` moves the file, or tells that it did not. -/
theorem wp_moveFile (s : Disk) (sourceFile destinationFile : String) :
    wp (FileUtil.moveFile sourceFile destinationFile) (MovesFile sourceFile destinationFile s)
      (fun e t => Same s t ∧ FileFails s e) s := by
  unfold FileUtil.moveFile
  rw [wp_bind]
  refine wp_mono (wp_exist s sourceFile) (fun found t ht => ?_) fun _ _ he => he
  obtain ⟨hst, rfl⟩ := ht
  -- without a source nothing is moved
  cases hsource : s.file sourceFile with
  | none => exact ⟨hst.1, hst.2.2, fun _ => hsource, .inl hst.file⟩
  | some content =>
    show wp (File.isFile sourceFile >>= _) _ _ t
    rw [wp_bind]
    refine wp_mono (wp_exist t sourceFile) (fun regular u hu => ?_) fun e u hu =>
      ⟨trans_of Same hst hu.1, fun h => hu.2.1 (hst.1.filesWork h), hu.2.2⟩
    obtain ⟨htu, hregular⟩ := hu
    rw [hst.file, hsource] at hregular
    subst hregular
    have hsu := trans_of Same hst htu
    show wp (File.exist destinationFile >>= _) _ _ u
    rw [wp_bind]
    refine wp_mono (wp_exist u destinationFile) (fun there v hv => ?_) fun e v hv =>
      ⟨trans_of Same hsu hv.1, fun h => hv.2.1 (hsu.1.filesWork h), hv.2.2⟩
    have hsv := trans_of Same hsu hv.1
    -- the rename itself, from a state that has only lost the file to be replaced
    have hrename : ∀ w, Later s w → w.rows = s.rows → sourceFile ≠ destinationFile →
        (w.file = s.file ∨ w.file = Function.update s.file destinationFile none) →
        wp (Exec.tryCatch (do
          File.renameTo sourceFile destinationFile
          return true)
          (catchPoco (return false))) (MovesFile sourceFile destinationFile s)
          (fun e t => Same s t ∧ FileFails s e) w := by
      intro w hlater hrows hne hfile
      have hfound : w.file sourceFile = some content := by
        rcases hfile with h | h
        · rw [h, hsource]
        · rw [h, Function.update_of_ne hne, hsource]
      unfold File.renameTo
      rw [wp_tryCatch, wp_bind, wp_bind]
      refine wp_mono (wp_fileCall w sourceFile) (fun _ x hx => ?_) fun e x hx =>
        wp_catchPoco hx.2 ⟨trans_of Later hlater hx.1.1, hx.1.2.2.trans hrows,
          fun h => absurd (hlater.filesWork h) hx.2.1, ?_⟩
      · have hxfound : x.files.find? sourceFile = some content := by
          show x.file sourceFile = _
          rw [hx.file, hfound]
        rw [wp_bind, wp_getState, hxfound]
        dsimp only
        rw [wp_modifyState, wp_pure]
        refine ⟨trans_of Later hlater hx.1, hx.2.2.trans hrows, content, hsource, ?_⟩
        rw [← file_renamed hfile, ← hx.file]
        show ((x.files.erase sourceFile).set destinationFile content).find? = _
        rw [SortedMap.find?_set_eq, SortedMap.find?_erase_eq]
        rfl
      · rw [hx.1.file]
        exact hfile
    obtain ⟨huv, rfl⟩ := hv
    -- a file at the destination is removed first
    cases hdestination : u.file destinationFile with
    | none =>
      have hne : sourceFile ≠ destinationFile := by
        intro heq
        rw [hsu.file, ← heq, hsource] at hdestination
        cases hdestination
      exact hrename v hsv.1 hsv.2.2 hne (.inl hsv.file)
    | some replaced =>
      -- source and destination are the same file
      by_cases heq : destinationFile = sourceFile
      · simp only [Option.isSome_some, if_true, heq]
        refine ⟨hsv.1, hsv.2.2, content, hsource, ?_⟩
        rw [Function.update_idem, hsv.file, ← hsource, Function.update_eq_self]
      · simp only [Option.isSome_some, if_true, heq, if_false]
        rw [wp_bind]
        refine wp_mono (wp_removeFileIfPresent v destinationFile) (fun ret w hw => ?_)
          fun _ _ he => he.elim
        obtain ⟨hvw, hrows, -, hfile⟩ := hw
        rw [hsv.file] at hfile
        exact hrename w (trans_of Later hsv.1 hvw) (hrows.trans hsv.2.2) (Ne.symm heq)
          (hfile.symm.imp_left And.right)

/-! ## The database -/

variable {json : PocoJson} {key : String}

/-- The row of a key is gone; whether there was one is the answer. -/
theorem wp_deleteMetadata (s : Disk) (key : String) :
    wp (HttpCacheDatabase.deleteMetadata key)
      (fun ret t => Later s t ∧ t.files = s.files ∧ ret = (s.row key).isSome ∧
        t.row = Function.update s.row key none ∧ s.faults.database.headD .none = .none)
      (fun e t => Same s t ∧ DatabaseFails s e ∧ s.faults.database.headD .none ≠ .none) s := by
  unfold HttpCacheDatabase.deleteMetadata
  rw [wp_bind]
  refine wp_mono (wp_databaseCall s) (fun _ t ht => ?_) fun _ _ he => he
  obtain ⟨hst, hhead⟩ := ht
  rw [wp_bind, wp_getState, wp_bind, wp_modifyState, wp_pure]
  refine ⟨hst.1, hst.2.1, ?_, ?_, hhead⟩
  · show (t.row key).isSome = _
    rw [hst.row]
  · rw [← hst.row]
    exact SortedMap.find?_erase_eq _ _

/-- The row that is written for some metadata. -/
def HttpCacheMetadata.toRow (json : PocoJson) (nowAtEpoch : Int64)
    (httpCacheMetadata : HttpCacheMetadata) : Row where
  url := httpCacheMetadata.url
  httpMethod := httpCacheMetadata.httpMethod
  statusCode := httpCacheMetadata.statusCode
  statusMessage := httpCacheMetadata.statusMessage
  responseHeaderJson :=
    HttpUtil.exchangeHeadersToJsonStr json.stringify httpCacheMetadata.responseHeaders
  responseBodySize := httpCacheMetadata.responseBodySize
  sentRequestAtEpoch := httpCacheMetadata.sentRequestAtEpoch
  receivedResponseAtEpoch := httpCacheMetadata.receivedResponseAtEpoch
  lastAccessedAtEpoch := nowAtEpoch

/-- The row of the key is written, and no other. -/
theorem wp_updateMetadata (s : Disk) (httpCacheMetadata : HttpCacheMetadata) :
    wp (HttpCacheDatabase.updateMetadata json httpCacheMetadata)
      (fun _ t => Later s t ∧ t.files = s.files ∧ t.row = Function.update s.row
        httpCacheMetadata.key (some (httpCacheMetadata.toRow json s.nowAtEpoch)))
      (fun e t => Same s t ∧ DatabaseFails s e) s := by
  unfold HttpCacheDatabase.updateMetadata
  rw [wp_bind]
  refine wp_mono (wp_databaseCall s) (fun _ t ht => ?_) fun _ _ he => ⟨he.1, he.2.1⟩
  rw [wp_modifyState]
  refine ⟨ht.1.1, ht.1.2.1, ?_⟩
  rw [← ht.1.row, ← ht.1.1.1]
  exact SortedMap.find?_set_eq _ _ _

/-- Only the stored headers may make it throw, when Poco reads something else than was written. -/
theorem wp_getMetadata (s : Disk) (key : String) :
    wp (HttpCacheDatabase.getMetadata json key)
      (fun metadata t => Same s t ∧ (metadata = none → s.row key = none) ∧
        ∀ m, metadata = some m → ∃ row, s.row key = some row ∧ row.getMetadata json key = .ok m)
      (fun e t => Same s t ∧ (DatabaseFails s e ∨ ∃ e', e = .http e')) s := by
  unfold HttpCacheDatabase.getMetadata
  rw [wp_bind]
  refine wp_mono (wp_databaseCall s) (fun _ t ht => ?_) fun _ _ he => ⟨he.1, .inl he.2.1⟩
  obtain ⟨hst, -⟩ := ht
  rw [wp_bind, wp_getState]
  have hrow : t.rows.find? key = s.row key := congrFun hst.row key
  rw [hrow]
  cases hfound : s.row key with
  | none => exact ⟨hst, fun _ => rfl, nofun⟩
  | some row =>
    dsimp only
    rw [wp_bind]
    cases hread : row.getMetadata json key with
    | error e => exact ⟨hst, .inr ⟨e, rfl⟩⟩
    | ok metadata =>
      refine ⟨hst, nofun, fun m hm => ⟨row, rfl, ?_⟩⟩
      cases hm
      exact hread

/-- The row of a key but for the time of its last access. -/
def Row.Like (row row' : Row) : Prop :=
  row' = { row with lastAccessedAtEpoch := row'.lastAccessedAtEpoch }

/-- The rows, but for the times of their last access. -/
def Disk.RowsLike (s t : Disk) : Prop :=
  ∀ key, (t.row key).isSome = (s.row key).isSome ∧
    ∀ row row', s.row key = some row → t.row key = some row' → row.Like row'

/-- The time of a row is written, and nothing else. -/
theorem wp_updateLastAccessedSec (s : Disk) (key : String) :
    wp (HttpCacheDatabase.updateLastAccessedSec key)
      (fun _ t => Later s t ∧ t.files = s.files ∧ RowsLike s t)
      (fun e t => Same s t ∧ DatabaseFails s e) s := by
  unfold HttpCacheDatabase.updateLastAccessedSec
  rw [wp_bind]
  refine wp_mono (wp_databaseCall s) (fun _ t ht => ?_) fun _ _ he => ⟨he.1, he.2.1⟩
  obtain ⟨hst, -⟩ := ht
  rw [wp_bind, wp_getState]
  have hrow : t.rows.find? key = s.row key := congrFun hst.row key
  rw [hrow]
  -- a key without a row is not updated
  cases hfound : s.row key with
  | none =>
    refine ⟨hst.1, hst.2.1, fun k => ?_⟩
    rw [hst.row]
    refine ⟨rfl, fun row row' hold hnew => ?_⟩
    rw [hold] at hnew
    cases hnew
    rfl
  | some row =>
    dsimp only
    rw [wp_bind, wp_modifyState, wp_pure]
    refine ⟨hst.1, hst.2.1, fun k => ?_⟩
    have hset : ∀ accessed, Disk.row { t with rows := t.rows.set key accessed } =
        Function.update s.row key (some accessed) := by
      intro accessed
      rw [← hst.row]
      exact SortedMap.find?_set_eq _ _ _
    rw [hset]
    by_cases hk : k = key
    -- the row of the key has a new time, the others are as they were
    · subst hk
      rw [Function.update_self, hfound]
      refine ⟨rfl, fun old new hold hnew => ?_⟩
      cases hold
      cases hnew
      rfl
    · rw [Function.update_of_ne hk]
      refine ⟨rfl, fun old new hold hnew => ?_⟩
      rw [hold] at hnew
      cases hnew
      rfl

/-- The query gives each row once, in some order. -/
theorem wp_queryAll (s : Disk) :
    wp HttpCacheDatabase.queryAll
      (fun params t => Same s t ∧
        params.Perm (s.rows.entries.map fun e => (e.1, e.2.responseBodySize)))
      (fun e t => Same s t ∧ DatabaseFails s e) s := by
  unfold HttpCacheDatabase.queryAll
  rw [wp_bind]
  refine wp_mono (wp_databaseCall s) (fun _ t ht => ?_) fun _ _ he => ⟨he.1, he.2.1⟩
  obtain ⟨hst, -⟩ := ht
  rw [wp_bind, wp_getState, wp_pure]
  refine ⟨hst, ?_⟩
  rw [← hst.2.2]
  exact (List.perm_insertionSort _ _).map _

/-- It throws nothing. When the file is gone there are no rows left. -/
theorem wp_deleteDatabaseFile (s : Disk) :
    wp HttpCacheDatabase.deleteDatabaseFile
      (fun _ t => Later s t ∧ t.files = s.files ∧
        (t.rows = s.rows ∧ ¬s.FilesWork ∨ t.rows = SortedMap.empty))
      (fun _ _ => False) s := by
  unfold HttpCacheDatabase.deleteDatabaseFile
  rw [wp_tryCatch, wp_bind]
  refine wp_mono (wp_fileCall s _) (fun _ t ht => ?_) fun e t ht =>
    wp_catchPoco ht.2 ⟨ht.1.1, ht.1.2.1, .inl ⟨ht.1.2.2, ht.2.1⟩⟩
  rw [wp_bind, wp_modifyState, wp_pure]
  exact ⟨ht.1, ht.2.1, .inr rfl⟩

end EasyHttp
