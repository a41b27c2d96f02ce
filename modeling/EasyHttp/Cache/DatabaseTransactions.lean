import EasyHttp.Cache.MetadataStatement
import EasyHttp.Db.SqliteTransactionTheorems
import EasyHttp.Message.HttpUtilTheorems

/-!
# `HttpCacheDatabase` over the transactions of its database

The cache finds the rows of the metadata on its `Disk`, where a call of the database either does
all that it is for or throws. Here the calls of `HttpCacheDatabase` are those of a user of
`SqliteTransaction`, with one fault for each call of the session.

* `Call.action`: the calls as they use the database;
* `Call.onDisk`: the calls as the cache sees them;
* `Invocation.Plain`: the texts that `updateMetadata` writes are plain, so that its statement does
  what `Call.action` says;
* `refines_disk`: a run of the first is a run of the second, as long as no rollback fails and all
  texts are plain.
-/

namespace EasyHttp.HttpCacheDatabase

open Exec
open Db.SqliteTransaction (Event History)

/-- The rows of the metadata, by `cache_key`. -/
abbrev Rows := SortedMap String Row

/-- The calls of the cache. -/
inductive Call where
  | getMetadata (key : String)
  | deleteMetadata (key : String)
  | updateMetadata (httpCacheMetadata : HttpCacheMetadata)
  | updateLastAccessedSec (key : String)
  | enumerate
  | closeSqliteSession

/-- What the calls return. -/
inductive Answer where
  /-- What is thrown when the row is read passes through. -/
  | metadata (metadata : Except HttpException (Option HttpCacheMetadata))
  | deleted (deleted : Bool)
  | updated
  | accessed (updated : Bool)
  | enumerated (rows : List (String × UInt64))

/-- `getMetadata`, of the rows that the query finds. -/
def Rows.getMetadata (json : PocoJson) (key : String) (rows : Rows) :
    Except HttpException (Option HttpCacheMetadata) :=
  match rows.find? key with
  | some row => (row.getMetadata json key).map some
  | none => .ok none

/-- The query of `enumerate`. -/
def Rows.enumerate (rows : Rows) : List (String × UInt64) :=
  (rows.entries.insertionSort fun a b => a.2.lastAccessedAtEpoch ≤ b.2.lastAccessedAtEpoch).map
    fun e => (e.1, e.2.responseBodySize)

/-- Whether there is a row to update, and the rows after it. -/
def Rows.updateLastAccessedSec (nowAtEpoch : Int64) (key : String) (rows : Rows) : Bool × Rows :=
  match rows.find? key with
  | some row => (true, rows.set key { row with lastAccessedAtEpoch := nowAtEpoch })
  | none => (false, rows)

/-- What the call does with the database, at the time `nowAtEpoch`. The statement of
`updateMetadata` sets the row where its texts are plain (`writesRow_of_plainTexts`). -/
def Call.action (json : PocoJson) (nowAtEpoch : Int64) (faults : Db.SqliteTransaction.Faults) :
    Call → Db.SqliteTransaction.Action Rows Answer
  | .getMetadata key => .read faults fun rows => .metadata (rows.getMetadata json key)
  | .deleteMetadata key => .write faults fun rows =>
    .ok (.deleted (rows.find? key).isSome, rows.erase key)
  | .updateMetadata httpCacheMetadata => .write faults fun rows =>
    .ok (.updated, rows.set httpCacheMetadata.key (httpCacheMetadata.toRow json nowAtEpoch))
  | .updateLastAccessedSec key => .write faults fun rows =>
    .ok (.accessed (Rows.updateLastAccessedSec nowAtEpoch key rows).1,
      (Rows.updateLastAccessedSec nowAtEpoch key rows).2)
  | .enumerate => .read faults fun rows => .enumerated rows.enumerate
  | .closeSqliteSession => .closeSqliteSession

/-- An `HttpException` is part of the answer. -/
def answerHttp (x : DiskExec (Option HttpCacheMetadata)) : DiskExec Answer :=
  Exec.tryCatch (do return .metadata (.ok (← x))) fun e =>
    match e with
    | .http e => return .metadata (.error e)
    | e => throw e

/-- The call as the cache makes it; it does not see that a session is closed. -/
def Call.onDisk (json : PocoJson) (nowAtEpoch : Int64) (call : Call) :
    DiskExec (Option Answer) := do
  modifyState fun disk => { disk with nowAtEpoch := nowAtEpoch }
  match call with
  | .getMetadata key => return some (← answerHttp (HttpCacheDatabase.getMetadata json key))
  | .deleteMetadata key => return some (.deleted (← HttpCacheDatabase.deleteMetadata key))
  | .updateMetadata httpCacheMetadata =>
    HttpCacheDatabase.updateMetadata json httpCacheMetadata
    return some .updated
  | .updateLastAccessedSec key =>
    return some (.accessed (← HttpCacheDatabase.updateLastAccessedSec key))
  | .enumerate => return some (.enumerated (← HttpCacheDatabase.queryAll))
  | .closeSqliteSession =>
    Disk.databaseCall
    return none

/-- What befalls the database call of the cache when the call ends so. -/
def faultOf : Except Db.Thrown (Option Answer) → Fault
  | .ok _ => .none
  | .error (.sql (.databaseCorrupt _)) => .corrupt
  | .error _ => .fails

/-- What the cache sees of how a call has ended. -/
def seen : Except Db.Thrown (Option Answer) → Except CacheException (Option Answer)
  | .ok answer => .ok answer
  | .error (.sql (.databaseCorrupt _)) =>
    .error (.sql (.databaseCorrupt "database disk image is malformed"))
  | .error _ => .error (.sql (.execution "database error"))

/-! ## One call -/

/-- The disk after a call that has been answered. -/
def answered (disk : Disk) (nowAtEpoch : Int64) (rows : Rows) : Disk := { disk with
  nowAtEpoch := nowAtEpoch
  rows := rows
  faults := { disk.faults with database := disk.faults.database.tail } }

section
variable {json : PocoJson} {nowAtEpoch : Int64} {faults : Db.SqliteTransaction.Faults}
  {call : Call}

/-- A call meets the fault that its result is seen as. -/
theorem exec_databaseCall (disk : Disk) (result : Except Db.Thrown (Option Answer))
    (hfault : disk.faults.database.headD .none = faultOf result) :
    exec Disk.databaseCall disk =
      ((seen result).map fun _ => (), answered disk disk.nowAtEpoch disk.rows) := by
  unfold Disk.databaseCall
  rw [exec_bind_ok (exec_getState disk), exec_bind_ok (exec_modifyState _ disk), hfault]
  cases result with
  | ok answer => rfl
  | error e =>
    cases e with
    | sql e => cases e <;> rfl
    | _ => rfl

theorem exec_databaseCall_ok (disk : Disk) (hfault : disk.faults.database.headD .none = .none) :
    exec Disk.databaseCall disk = (.ok (), answered disk disk.nowAtEpoch disk.rows) :=
  exec_databaseCall disk (.ok none) hfault

/-- To read a row is what the query answers. -/
theorem exec_answerHttp_getMetadata (disk : Disk) {key : String}
    (hfault : disk.faults.database.headD .none = .none) :
    exec (answerHttp (HttpCacheDatabase.getMetadata json key)) disk =
      (.ok (.metadata (Rows.getMetadata json key disk.rows)),
        answered disk disk.nowAtEpoch disk.rows) := by
  have hrow : exec (HttpCacheDatabase.getMetadata json key) disk =
      ((Rows.getMetadata json key disk.rows).mapError CacheException.http,
        answered disk disk.nowAtEpoch disk.rows) := by
    unfold HttpCacheDatabase.getMetadata Rows.getMetadata
    rw [exec_bind_ok (exec_databaseCall_ok disk hfault), exec_bind_ok (exec_getState _)]
    show exec (match disk.rows.find? key with
      | some row => do return some (← liftHttp (row.getMetadata json key))
      | none => return none) _ = _
    cases disk.rows.find? key with
    | none => rfl
    | some row =>
      dsimp only
      cases row.getMetadata json key <;> rfl
  unfold answerHttp
  rw [exec_tryCatch]
  cases hmetadata : Rows.getMetadata json key disk.rows with
  | ok metadata =>
    rw [hmetadata] at hrow
    rw [exec_bind_ok hrow]
    rfl
  | error e =>
    rw [hmetadata] at hrow
    rw [exec_bind_error hrow]
    rfl

theorem exec_updateLastAccessedSec (disk : Disk) {key : String}
    (hfault : disk.faults.database.headD .none = .none) :
    exec (HttpCacheDatabase.updateLastAccessedSec key) disk =
      (.ok (Rows.updateLastAccessedSec disk.nowAtEpoch key disk.rows).1,
        answered disk disk.nowAtEpoch
          (Rows.updateLastAccessedSec disk.nowAtEpoch key disk.rows).2) := by
  unfold HttpCacheDatabase.updateLastAccessedSec
  rw [exec_bind_ok (exec_databaseCall_ok disk hfault), exec_bind_ok (exec_getState _)]
  unfold Rows.updateLastAccessedSec answered
  dsimp only
  cases disk.rows.find? key <;> rfl

variable {disk : Disk}

/-- A call that has thrown has not changed the rows. -/
theorem exec_onDisk_error {e : Db.Thrown}
    (hfault : disk.faults.database.headD .none = faultOf (.error e)) :
    exec (call.onDisk json nowAtEpoch) disk =
      (seen (.error e), answered disk nowAtEpoch disk.rows) := by
  obtain ⟨e', hseen⟩ : ∃ e', seen (.error e) = .error (.sql e') := by
    cases e with
    | sql e => cases e <;> exact ⟨_, rfl⟩
    | _ => exact ⟨_, rfl⟩
  let timed : Disk := { disk with nowAtEpoch := nowAtEpoch }
  have hcall : exec Disk.databaseCall timed =
      (.error (.sql e'), answered disk nowAtEpoch disk.rows) := by
    rw [exec_databaseCall timed (.error e) hfault, hseen]
    rfl
  unfold Call.onDisk
  rw [exec_bind_ok (exec_modifyState _ disk), hseen]
  cases call with
  | getMetadata key =>
    unfold answerHttp HttpCacheDatabase.getMetadata
    refine exec_bind_error ?_
    rw [exec_tryCatch, exec_bind_error (exec_bind_error hcall)]
    rfl
  | deleteMetadata key =>
    unfold HttpCacheDatabase.deleteMetadata
    exact exec_bind_error (exec_bind_error hcall)
  | updateMetadata httpCacheMetadata =>
    unfold HttpCacheDatabase.updateMetadata
    exact exec_bind_error (exec_bind_error hcall)
  | updateLastAccessedSec key =>
    unfold HttpCacheDatabase.updateLastAccessedSec
    exact exec_bind_error (exec_bind_error hcall)
  | enumerate =>
    unfold HttpCacheDatabase.queryAll
    exact exec_bind_error (exec_bind_error hcall)
  | closeSqliteSession => exact exec_bind_error hcall

/-- A call that has returned has changed the rows as the write has. -/
theorem exec_onDisk_ok {answer : Option Answer}
    (hfault : disk.faults.database.headD .none = .none)
    (hanswer : Event.Answers disk.rows ⟨call.action json nowAtEpoch faults, .ok answer⟩) :
    exec (call.onDisk json nowAtEpoch) disk = (.ok answer, answered disk nowAtEpoch
      (Event.after disk.rows ⟨call.action json nowAtEpoch faults, .ok answer⟩)) := by
  let timed : Disk := { disk with nowAtEpoch := nowAtEpoch }
  have hcall : exec Disk.databaseCall timed = (.ok (), answered disk nowAtEpoch disk.rows) :=
    exec_databaseCall_ok timed hfault
  unfold Call.onDisk
  rw [exec_bind_ok (exec_modifyState _ disk)]
  cases call with
  | getMetadata key =>
    cases hanswer
    exact exec_bind_ok (exec_answerHttp_getMetadata timed hfault)
  | deleteMetadata key =>
    obtain ⟨a, rows', hstatement, rfl⟩ := hanswer
    cases hstatement
    unfold HttpCacheDatabase.deleteMetadata
    exact exec_bind_ok (exec_bind_ok hcall)
  | updateMetadata httpCacheMetadata =>
    obtain ⟨a, rows', hstatement, rfl⟩ := hanswer
    cases hstatement
    unfold HttpCacheDatabase.updateMetadata
    exact exec_bind_ok (exec_bind_ok hcall)
  | updateLastAccessedSec key =>
    obtain ⟨a, rows', hstatement, rfl⟩ := hanswer
    cases hstatement
    exact exec_bind_ok (exec_updateLastAccessedSec timed hfault)
  | enumerate =>
    cases hanswer
    unfold HttpCacheDatabase.queryAll
    exact exec_bind_ok (exec_bind_ok hcall)
  | closeSqliteSession =>
    cases hanswer
    exact exec_bind_ok hcall

/-! ## Runs -/

/-- A call, with when it is made and what befalls its calls of the session. -/
structure Invocation where
  call : Call
  nowAtEpoch : Int64
  faults : Db.SqliteTransaction.Faults

/-- The invocation as a transaction on the rows. -/
def Invocation.action (json : PocoJson) (invocation : Invocation) :
    Db.SqliteTransaction.Action Rows Answer :=
  invocation.call.action json invocation.nowAtEpoch invocation.faults

/-- The metadata that the call stores, if it does, have plain texts. -/
def Invocation.Plain (closesAtEnd : Bool) (json : PocoJson) (invocation : Invocation) : Prop :=
  match invocation.call with
  | .updateMetadata httpCacheMetadata => PlainTexts closesAtEnd json httpCacheMetadata
  | _ => True

/-- The statement that the call has written for a row gives it. -/
def Invocation.Gives {Conf : Type} (conf : Db.Poco Conf) (json : PocoJson)
    (invocation : Invocation) : Prop :=
  match invocation.call with
  | .updateMetadata httpCacheMetadata =>
    WritesRow conf json invocation.nowAtEpoch httpCacheMetadata
  | _ => True

/-- For plain texts the statement gives the row. -/
theorem Invocation.Plain.gives {Conf : Type} {conf : Db.Poco Conf} {closesAtEnd : Bool}
    (hconf : Db.ContentValues.Documented conf closesAtEnd) {invocation : Invocation}
    (h : invocation.Plain closesAtEnd json) : invocation.Gives conf json := by
  unfold Invocation.Plain at h
  unfold Invocation.Gives
  cases hcall : invocation.call with
  | updateMetadata httpCacheMetadata =>
    rw [hcall] at h
    exact writesRow_of_plainTexts hconf h
  | _ => trivial

/-- What the calls return as the cache makes them, and the disk after them. -/
def runOnDisk (json : PocoJson) : List Invocation → Disk →
    List (Except CacheException (Option Answer)) × Disk
  | [], disk => ([], disk)
  | invocation :: rest, disk =>
    let (result, disk') := exec (invocation.call.onDisk json invocation.nowAtEpoch) disk
    let (results, disk'') := runOnDisk json rest disk'
    (result :: results, disk'')

/-- One call, as it uses the database and as the cache sees it. -/
theorem exec_onDisk {result : Except Db.Thrown (Option Answer)}
    (hanswers : Event.Answers disk.rows ⟨call.action json nowAtEpoch faults, result⟩)
    (hfault : disk.faults.database.headD .none = faultOf result) :
    exec (call.onDisk json nowAtEpoch) disk = (seen result, answered disk nowAtEpoch
      (Event.after disk.rows ⟨call.action json nowAtEpoch faults, result⟩)) := by
  cases result with
  | ok answer => exact exec_onDisk_ok hfault hanswers
  | error e =>
    rw [Event.after_error]
    exact exec_onDisk_error hfault

/-- No write of the cache is refused. -/
theorem quiet_action (rows : Rows) (hquiet : ¬faults.Fails) :
    (call.action json nowAtEpoch faults).Quiet rows := by
  cases call with
  | getMetadata key => exact hquiet
  | enumerate => exact hquiet
  | closeSqliteSession => trivial
  | _ =>
    rintro (hfails | ⟨e, he⟩)
    · exact hquiet hfails
    · cases he

/-- What a run does, and the same run on a disk. -/
structure OnDisk (json : PocoJson) (invocations : List Invocation) (rows : Rows)
    (events : List (Event Rows Answer)) (rows' : Rows) : Prop where
  /-- A call fails for the cache only if one of its calls of the session has failed. -/
  faults : List.Forall₂ (fun invocation event =>
    ¬invocation.faults.Fails → faultOf event.result = .none) invocations events
  run : ∀ disk : Disk, disk.rows = rows →
    disk.faults.database = events.map (fun event => faultOf event.result) →
    (runOnDisk json invocations disk).1 = events.map (fun event => seen event.result) ∧
      (runOnDisk json invocations disk).2.rows = rows' ∧
      (runOnDisk json invocations disk).2.files = disk.files

/-- After each invocation of a run the disk holds the rows of the history. -/
theorem onDisk_of_run {rows : Rows} {invocations : List Invocation} {h h' : History Rows Answer}
    (hsettled : Db.SqliteTransaction.Settled rows h)
    (hrecovers : ∀ invocation ∈ invocations, (invocation.action json).Recovers)
    (hrun : Runs.run Db.SqliteTransaction.step h (invocations.map (Invocation.action json)) =
      some h') :
    ∃ events, h'.events = h.events ++ events ∧
      OnDisk json invocations h.state.rows events h'.state.rows := by
  -- induction on the calls, with the disk as it is before each
  induction invocations generalizing h with
  | nil =>
    cases hrun
    exact ⟨[], (List.append_nil _).symm, .nil, fun disk hrows _ => ⟨rfl, hrows, rfl⟩⟩
  | cons invocation rest ih =>
    obtain ⟨g, hstep, hrest⟩ := Runs.run_cons hrun
    have hrecover := hrecovers invocation List.mem_cons_self
    have hperformed := Db.SqliteTransaction.performed hsettled.rests (invocation.action json)
    -- a call leaves no transaction open
    have hsettled' := Db.SqliteTransaction.settled_step hsettled hrecover hstep
    obtain ⟨events, hevents, hfaults, hdisk⟩ :=
      ih hsettled' (fun i hi => hrecovers i (List.mem_cons_of_mem _ hi)) hrest
    cases hstep
    refine ⟨(invocation.action json).event h.state :: events, ?_, .cons ?_ hfaults, ?_⟩
    · rw [hevents, List.append_assoc]
      rfl
    · intro hquiet
      obtain ⟨answer, hanswer⟩ :=
        hperformed.returns rfl hsettled.initializing_eq (quiet_action _ hquiet)
      rw [hanswer]
      rfl
    · intro disk hrows hfaults
      -- the call answers from the rows of the disk
      have hanswers : ((invocation.action json).event h.state).Answers disk.rows := by
        rw [hrows, hsettled.rests.rows_eq]
        exact hperformed.answers
      have hexec := exec_onDisk hanswers (by rw [hfaults]; rfl)
      -- and it leaves the rows that the disk has afterwards
      have hafter : ((invocation.action json).event h.state).after disk.rows =
          (exec (invocation.action json).perform h.state).2.rows := by
        rw [hrows, hsettled.rests.rows_eq, ← Db.SqliteTransaction.committed_append]
        exact hsettled'.rests.rows_eq.symm
      obtain ⟨hresults, hlast⟩ := hdisk (answered disk invocation.nowAtEpoch _) hafter (by
        show disk.faults.database.tail = _
        rw [hfaults]
        rfl)
      rw [runOnDisk, hexec]
      exact ⟨congrArg (List.cons _) hresults, hlast⟩

/-- **The calls of `HttpCacheDatabase` do on their transactions what the cache sees**: where the
texts they store are plain, their statements give the rows they set, and they return the same and
leave the same rows as on a disk, if each call fails there that has failed here; and a call fails
only if one of its calls of the session has failed. -/
theorem refines_disk {Conf : Type} {conf : Db.Poco Conf} {closesAtEnd : Bool}
    (hconf : Db.ContentValues.Documented conf closesAtEnd)
    {s : Db.SqliteTransaction.State Rows} (hnew : s.New) {invocations : List Invocation}
    (hplain : ∀ invocation ∈ invocations, invocation.Plain closesAtEnd json)
    (hrecovers : ∀ invocation ∈ invocations, (invocation.action json).Recovers)
    {h : History Rows Answer} (hrun : Runs.run Db.SqliteTransaction.step { state := s }
      (invocations.map (Invocation.action json)) = some h) :
    (∀ invocation ∈ invocations, invocation.Gives conf json) ∧
      OnDisk json invocations s.rows h.events h.state.rows := by
  refine ⟨fun invocation hmem => (hplain invocation hmem).gives hconf, ?_⟩
  obtain ⟨events, hevents, hdisk⟩ := onDisk_of_run hnew.settled hrecovers hrun
  rw [List.nil_append] at hevents
  rw [hevents]
  exact hdisk

end

/-- Poco writes and reads as the standard says. -/
def plainJson : PocoJson := ⟨HttpUtil.jsonStringify, HttpUtil.jsonParse⟩

/-- The metadata of a response of three bytes. -/
def plainMetadata : HttpCacheMetadata where
  key := "key"
  url := "http://host/"
  httpMethod := .get
  statusCode := 200
  statusMessage := "OK"
  responseHeaders := some Headers.empty
  responseBodySize := 3
  sentRequestAtEpoch := 0
  receivedResponseAtEpoch := 0

/-- An entry is stored, the commit of its deletion fails, and the rows are enumerated. -/
def failingDeletion : List Invocation := [
  ⟨.updateMetadata plainMetadata, 0, {}⟩,
  ⟨.deleteMetadata "key", 1, { setTransactionSuccessful := some .keeps }⟩, ⟨.enumerate, 2, {}⟩]

theorem refines_disk_failingDeletion : ∃ h : History Rows Answer,
    Runs.run Db.SqliteTransaction.step
        { state := { opening := Db.newHelper, rows := SortedMap.empty } }
        (failingDeletion.map (Invocation.action plainJson)) = some h ∧
      h.events.map (fun event => faultOf event.result) = [.none, .fails, .none] ∧
      (∀ invocation ∈ failingDeletion,
        invocation.Gives Db.ContentValues.mapConfiguration plainJson) ∧
      OnDisk plainJson failingDeletion SortedMap.empty h.events h.state.rows := by
  obtain ⟨h, hrun, hfaults⟩ : ∃ h : History Rows Answer, Runs.run Db.SqliteTransaction.step
      { state := { opening := Db.newHelper, rows := SortedMap.empty } }
      (failingDeletion.map (Invocation.action plainJson)) = some h ∧
      h.events.map (fun event => faultOf event.result) = [.none, .fails, .none] := ⟨_, rfl, rfl⟩
  have hquiet : ∀ e, ¬Db.Faults.Throw (fun _ => none) e := by
    rintro e ⟨c, hc⟩
    cases hc
  refine ⟨h, hrun, hfaults, refines_disk Db.ContentValues.documented_mapConfiguration
    ⟨rfl, rfl, rfl⟩ (fun invocation hmem => ?_) (fun invocation hmem => ?_) hrun⟩
  · simp only [failingDeletion, List.mem_cons, List.not_mem_nil, or_false] at hmem
    rcases hmem with rfl | rfl | rfl
    · show PlainTexts true plainJson plainMetadata
      decide +kernel
    · trivial
    · trivial
  · simp only [failingDeletion, List.mem_cons, List.not_mem_nil, or_false] at hmem
    rcases hmem with rfl | rfl | rfl
    · exact ⟨nofun, fun e he => (hquiet e he).elim⟩
    · exact ⟨nofun, fun e he => (hquiet e he).elim⟩
    · exact ⟨nofun, fun e he => (hquiet e he).elim⟩

end EasyHttp.HttpCacheDatabase
