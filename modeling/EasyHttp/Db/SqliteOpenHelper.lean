import EasyHttp.Db.SqliteQueryBuilder
import EasyHttp.Library.ExecPost

/-!
# `SqliteOpenHelper`

`getDatabase` opens the database file and takes it to the version of the helper, in a transaction
around one of the hooks `onCreate`, `onUpgrade` and `onDowngrade`. Any of its calls may throw.

* `getDatabase`, `close`, `closeSqliteSession`: the code, with what each call throws;
* `SqliteFile.migrate`: the version transition, done as a whole;
* `Recovered`: after an exception the helper is as before, and the transition can be done again;
* `recovered_iff`: this is so for the exceptions that the catch clause names.
-/

namespace EasyHttp.Db

open Exec

/-- What a `throw` carries, as far as the catch clauses tell it apart. -/
inductive Thrown where
  | sql (e : SqlException)
  /-- Another exception that derives from `BaseException`. -/
  | base (message : String)
  /-- Another exception that derives from `std::exception`. -/
  | std (message : String)
  | object
deriving DecidableEq

/-- Only these exceptions are caught. -/
def Thrown.isSql : Thrown → Bool
  | .sql _ => true
  | _ => false

/-- The hooks that a version transition calls. -/
inductive Transition where
  | onCreate
  | onUpgrade (oldVersion newVersion : UInt32)
  | onDowngrade (oldVersion newVersion : UInt32)
deriving DecidableEq

/-- The database file. -/
structure SqliteFile where
  /-- `PRAGMA user_version` -/
  userVersion : Int32
  /-- The transitions whose effects are in the file, in order. -/
  transitions : List Transition

/-- A `SqliteDatabase` that a helper holds. -/
structure SqliteDatabase where
  opened : Bool := true
  /-- `m_pSession` is not NULL. -/
  session : Bool := true
  isTransaction : Bool := false

/-- The helper's own fields. -/
structure SqliteOpenHelper where
  version : UInt32
  one_le : 1 ≤ version
  initializing : Bool := false
  database : Option SqliteDatabase := none

/-- The constructor. -/
def SqliteOpenHelper.create (version : UInt32) : Except SqlException SqliteOpenHelper :=
  if h : 1 ≤ version then .ok { version := version, one_le := h }
  else .error (.illegalArgument s!"Version must be >=1, was {version.toNat}")

/-- The helper, the file and an open transaction. -/
structure State where
  helper : SqliteOpenHelper
  file : SqliteFile
  /-- What a rollback of the database that is being opened restores. -/
  transaction : Option SqliteFile := none

/-- The calls of `getDatabase` that may throw. -/
inductive Call where
  | openOrCreateDatabase
  | reopen
  | onConfigure
  | getVersion
  | setAutoVacuum
  | beginTransaction
  | hook (transition : Transition)
  | setVersion
  | setTransactionSuccessful
  | endTransaction
  | onOpen

/-- What the calls throw. -/
abbrev Faults := Call → Option Thrown

/-- Code that opens the database. -/
abbrev Code := Exec Thrown State

/-- A call of the library, which may throw. -/
def call (faults : Faults) (c : Call) : Code Unit :=
  match faults c with
  | some e => throw e
  | none => pure ()

/-- The flag that guards against a call from inside. -/
def setInitializing (initializing : Bool) : Code Unit :=
  modifyState fun s => { s with helper := { s.helper with initializing := initializing } }

/-- The helper keeps a database, or none. -/
def setDatabase (database : Option SqliteDatabase) : Code Unit :=
  modifyState fun s => { s with helper := { s.helper with database := database } }

/-- `SqliteDatabase::getVersion`, of what the query returns. -/
def SqliteFile.getVersion (file : SqliteFile) : UInt32 :=
  if file.userVersion < 0 then 0 else file.userVersion.toUInt32

namespace SqliteDatabase

/-- The session is closed, and a transaction that is open is rolled back. -/
def destroy : Code Unit :=
  modifyState fun s => { s with file := s.transaction.getD s.file, transaction := none }

/-- SQLite has one transaction at a time. -/
def beginTransaction (faults : Faults) : Code Unit := do
  call faults .beginTransaction
  let s ← getState
  match s.transaction with
  | some _ => throw (.sql (.illegalState "Can't begin transaction"))
  | none => modifyState fun s => { s with transaction := some s.file }

/-- The version is written with the format `%d`. -/
def setVersion (faults : Faults) (version : UInt32) : Code Unit := do
  call faults .setVersion
  modifyState fun s => { s with file := { s.file with userVersion := version.toInt32 } }

/-- The transaction is committed. -/
def setTransactionSuccessful (faults : Faults) : Code Unit := do
  call faults .setTransactionSuccessful
  let s ← getState
  match s.transaction with
  | some _ => modifyState fun s => { s with transaction := none }
  | none => throw (.sql (.illegalState "Can't set transaction successful"))

/-- A transaction that is still open is rolled back. -/
def endTransaction (faults : Faults) : Code Unit := do
  call faults .endTransaction
  modifyState fun s => { s with file := s.transaction.getD s.file, transaction := none }

end SqliteDatabase

/-- A hook has its effects, and then may throw. -/
def hook (faults : Faults) (transition : Transition) : Code Unit := do
  modifyState fun s =>
    { s with file := { s.file with transitions := s.file.transitions ++ [transition] } }
  call faults (.hook transition)

/-- The hook for a version that is not the helper's. -/
def transitionOf (oldVersion newVersion : UInt32) : Transition :=
  if oldVersion = 0 then .onCreate
  else if oldVersion > newVersion then .onDowngrade oldVersion newVersion
  else .onUpgrade oldVersion newVersion

/-- `createDatabase` -/
def createDatabase (faults : Faults) : Code SqliteDatabase := do
  call faults .openOrCreateDatabase
  return {}

/-- The call of `setAutoVacuum`, in a `try` of its own. -/
def setAutoVacuum (faults : Faults) : Code Unit :=
  Exec.tryCatch (call faults .setAutoVacuum) fun e =>
    match e with
    | .sql _ => pure ()
    | e => throw e

/-- The transaction around a version transition. -/
def runTransition (faults : Faults) (oldVersion newVersion : UInt32) : Code Unit := do
  SqliteDatabase.beginTransaction faults
  hook faults (transitionOf oldVersion newVersion)
  SqliteDatabase.setVersion faults newVersion
  SqliteDatabase.setTransactionSuccessful faults
  SqliteDatabase.endTransaction faults

/-- What `getDatabase` does about the version of the file. -/
def bringToVersion (faults : Faults) (oldVersion newVersion : UInt32) : Code Unit := do
  if oldVersion = 0 then setAutoVacuum faults
  if oldVersion ≠ newVersion then runTransition faults oldVersion newVersion

/-- The `try` block of `getDatabase`, with the local variable `db`. -/
def openDatabase (faults : Faults) : Code SqliteDatabase := do
  -- `db` has no transaction yet
  modifyState fun s => { s with transaction := none }
  let s ← getState
  setInitializing true
  let db ← match s.helper.database with
    | some db => do
      call faults .reopen
      pure { db with opened := true }
    | none => createDatabase faults
  call faults .onConfigure
  call faults .getVersion
  let s ← getState
  bringToVersion faults s.file.getVersion s.helper.version
  call faults .onOpen
  setDatabase (some db)
  setInitializing false
  return db

/-- `db` is released after the catch clause, and with it the database. -/
def getDatabase (faults : Faults) : Code SqliteDatabase := do
  let s ← getState
  match s.helper.database.filter SqliteDatabase.opened with
  | some db => return db
  | none =>
    setDatabase none
    if s.helper.initializing then
      throw (.sql (.illegalState "Can't get database for called recursively"))
    Exec.tryCatch
      (Exec.tryCatch (openDatabase faults) fun e =>
        match e with
        | .sql e => do
          setInitializing false
          throw (.sql e)
        | e => throw e)
      fun e => do
        SqliteDatabase.destroy
        throw e

/-- `SqliteDatabase::close` -/
def SqliteDatabase.close (db : SqliteDatabase) : Except SqlException SqliteDatabase :=
  if !db.session || !db.opened then
    .error (.illegalState "SqliteDatabase Session is not created")
  else if db.isTransaction then
    .error (.illegalState "Can not close database, because database is in transaction")
  else .ok { db with opened := false }

/-- The session and the database go. -/
def close : Code Unit := do
  let s ← getState
  if s.helper.initializing then
    throw (.sql (.illegalState "Closed during initialization"))
  match s.helper.database.filter SqliteDatabase.opened with
  | some db =>
    let _ ← lift (db.close.mapError Thrown.sql)
    setDatabase none
  | none => pure ()

/-- The database is forgotten, and not closed. -/
def closeSqliteSession : Code Unit := do
  let s ← getState
  if s.helper.initializing then
    throw (.sql (.illegalState "Closed during initialization"))
  setDatabase none

/-! ## What an exception leaves -/

/-- The file after a version transition. -/
def SqliteFile.transit (oldVersion newVersion : UInt32) (file : SqliteFile) : SqliteFile where
  userVersion := newVersion.toInt32
  transitions := file.transitions ++ [transitionOf oldVersion newVersion]

/-- The file at the version of the helper, after a version transition if there is one. -/
def SqliteFile.migrate (version : UInt32) (file : SqliteFile) : SqliteFile :=
  if file.getVersion = version then file else file.transit file.getVersion version

/-- `getDatabase` has thrown: the helper holds no database and is not initializing; the version
transition has been done as a whole or not at all, and then `getDatabase` does it when no call
throws; the helper can be closed. -/
structure Recovered (s t : State) : Prop where
  database_eq : t.helper.database = none
  initializing_eq : t.helper.initializing = false
  file_eq : t.file = s.file ∨ t.file = s.file.migrate s.helper.version
  retried : wp (getDatabase fun _ => none)
    (fun db u => u.helper.database = some db ∧ u.helper.initializing = false ∧
      (t.file = s.file → u.file = s.file.migrate s.helper.version)) (fun _ _ => False) t
  close_ok : wp close (fun _ _ => True) (fun _ _ => False) t
  closeSqliteSession_ok : wp closeSqliteSession (fun _ _ => True) (fun _ _ => False) t

section
variable {faults : Faults} {s : State} {E : Thrown → State → Prop}

/-- Some call throws `e`. -/
def Faults.Throw (faults : Faults) (e : Thrown) : Prop := ∃ c, faults c = some e

/-- A call either throws or returns, and changes nothing else. -/
theorem wp_call {c : Call} {Q : Unit → State → Prop} (hE : ∀ e, faults.Throw e → E e s)
    (hQ : Q () s) : wp (call faults c) Q E s := by
  unfold call
  cases h : faults c with
  | some e => exact wp_throw.mpr (hE e ⟨c, h⟩)
  | none => exact wp_pure.mpr hQ

/-- Setting the vacuum mode either throws or returns. -/
theorem wp_setAutoVacuum {Q : Unit → State → Prop} (hE : ∀ e, faults.Throw e → E e s)
    (hQ : Q () s) : wp (setAutoVacuum faults) Q E s := by
  unfold setAutoVacuum
  rw [wp_tryCatch]
  refine wp_call (fun e he => ?_) hQ
  cases e with
  | sql e => exact wp_pure.mpr hQ
  | base message => exact hE _ he
  | std message => exact hE _ he
  | object => exact hE _ he

/-- What a rollback leaves of the file. -/
def State.rolledBack (s : State) : SqliteFile := s.transaction.getD s.file

/-- A transition that is cut off leaves the file as it was unless it has been committed. -/
theorem wp_runTransition {oldVersion newVersion : UInt32} (htransaction : s.transaction = none) :
    wp (runTransition faults oldVersion newVersion)
      (fun _ t => t = { s with
        file := s.file.transit oldVersion newVersion, transaction := none })
      (fun e t => faults.Throw e ∧ t.helper = s.helper ∧
        (t.rolledBack = s.file ∨ t.rolledBack = s.file.transit oldVersion newVersion)) s := by
  have hbefore : s.rolledBack = s.file := by
    rw [State.rolledBack, htransaction]
    rfl
  unfold runTransition SqliteDatabase.beginTransaction
  rw [wp_bind, wp_bind]
  refine wp_call (fun _ he => ⟨he, rfl, .inl hbefore⟩) ?_
  rw [wp_bind, wp_getState, htransaction]
  -- from here on a rollback restores the file
  unfold hook
  rw [wp_modifyState, wp_bind, wp_bind, wp_modifyState]
  refine wp_call (fun _ he => ⟨he, rfl, .inl rfl⟩) ?_
  unfold SqliteDatabase.setVersion
  rw [wp_bind, wp_bind]
  refine wp_call (fun _ he => ⟨he, rfl, .inl rfl⟩) ?_
  rw [wp_modifyState]
  unfold SqliteDatabase.setTransactionSuccessful
  rw [wp_bind, wp_bind]
  refine wp_call (fun _ he => ⟨he, rfl, .inl rfl⟩) ?_
  rw [wp_bind, wp_getState, wp_modifyState]
  -- and from here on there is nothing to roll back
  unfold SqliteDatabase.endTransaction
  rw [wp_bind]
  refine wp_call (fun _ he => ⟨he, rfl, .inr rfl⟩) ?_
  rw [wp_modifyState]
  rfl

/-- The database is created, upgraded or downgraded in a transaction, which is over afterwards. -/
theorem wp_bringToVersion (htransaction : s.transaction = none) (version : UInt32) :
    wp (bringToVersion faults s.file.getVersion version)
      (fun _ t => t = { s with file := s.file.migrate version })
      (fun e t => faults.Throw e ∧ t.helper = s.helper ∧
        (t.rolledBack = s.file ∨ t.rolledBack = s.file.migrate version)) s := by
  have hbefore : s.rolledBack = s.file := by
    rw [State.rolledBack, htransaction]
    rfl
  have htransition : wp (if s.file.getVersion ≠ version then
        runTransition faults s.file.getVersion version else pure ())
      (fun _ t => t = { s with file := s.file.migrate version })
      (fun e t => faults.Throw e ∧ t.helper = s.helper ∧
        (t.rolledBack = s.file ∨ t.rolledBack = s.file.migrate version)) s := by
    unfold SqliteFile.migrate
    by_cases h : s.file.getVersion = version
    · rw [if_neg (not_not.mpr h), if_pos h]
      exact wp_pure.mpr rfl
    · rw [if_pos h, if_neg h]
      refine wp_mono (wp_runTransition htransaction) (fun _ t ht => ht.trans ?_) fun _ _ => id
      rw [htransaction]
  unfold bringToVersion
  by_cases hzero : s.file.getVersion = 0
  · rw [if_pos hzero, wp_bind]
    exact wp_setAutoVacuum (fun _ he => ⟨he, rfl, .inl hbefore⟩) htransition
  · rw [if_neg hzero]
    exact htransition

/-- The helper while it opens a database. -/
def opening (helper : SqliteOpenHelper) : SqliteOpenHelper :=
  { helper with initializing := true, database := none }

/-- The file as it was, or at the version of the helper. -/
def Atomic (s t : State) : Prop :=
  t.rolledBack = s.file ∨ t.rolledBack = s.file.migrate s.helper.version

/-- After an opening the flag is down again, and the database is kept or none is. -/
theorem wp_openDatabase (hdatabase : s.helper.database = none) :
    wp (openDatabase faults)
      (fun db t => t.helper = { s.helper with initializing := false, database := some db } ∧
        t.file = s.file.migrate s.helper.version)
      (fun e t => faults.Throw e ∧ t.helper = opening s.helper ∧ Atomic s t) s := by
  have hopening : { s.helper with initializing := true } = opening s.helper := by
    rw [opening, ← hdatabase]
  have hsame : ∀ t : State, t.transaction = none → t.file = s.file → Atomic s t := by
    intro t htransaction hfile
    left
    rw [State.rolledBack, htransaction, ← hfile]
    rfl
  unfold openDatabase setInitializing
  rw [wp_bind, wp_modifyState, wp_bind, wp_getState, wp_bind, wp_modifyState, hdatabase]
  unfold createDatabase
  rw [wp_bind, wp_bind]
  refine wp_call (fun _ he => ⟨he, hopening, hsame _ rfl rfl⟩) ?_
  rw [wp_pure, wp_bind]
  refine wp_call (fun _ he => ⟨he, hopening, hsame _ rfl rfl⟩) ?_
  rw [wp_bind]
  refine wp_call (fun _ he => ⟨he, hopening, hsame _ rfl rfl⟩) ?_
  rw [wp_bind, wp_getState, wp_bind]
  refine wp_mono (wp_bringToVersion rfl s.helper.version) (fun _ t ht => ?_)
    fun _ t ht => ⟨ht.1, ht.2.1.trans hopening, ht.2.2⟩
  subst ht
  rw [wp_bind]
  refine wp_call (fun _ he => ⟨he, hopening, .inr rfl⟩) ?_
  exact ⟨rfl, rfl⟩

/-- What `getDatabase` leaves when it throws. -/
structure Left (s : State) (e : Thrown) (t : State) : Prop where
  database_eq : t.helper.database = none
  version_eq : t.helper.version = s.helper.version
  initializing_eq : t.helper.initializing = (s.helper.initializing || !e.isSql)
  file_eq : t.file = s.file ∨ t.file = s.file.migrate s.helper.version

/-- `getDatabase` opens a database, or leaves none behind. -/
theorem wp_getDatabase (s : State) :
    wp (getDatabase faults)
      (fun db t => s.helper.database = none → t.helper.database = some db ∧
        t.helper.initializing = false ∧ t.file = s.file.migrate s.helper.version)
      (fun e t => (s.helper.initializing = true ∨ faults.Throw e) ∧ Left s e t) s := by
  unfold getDatabase setDatabase
  rw [wp_bind, wp_getState]
  -- an open database is answered as it is
  cases hopened : s.helper.database.filter SqliteDatabase.opened with
  | some db =>
    refine wp_pure.mpr fun hnone => ?_
    rw [hnone] at hopened
    cases hopened
  | none =>
    dsimp only
    rw [wp_bind, wp_modifyState]
    -- from inside an opening there is an exception
    cases hinitializing : s.helper.initializing with
    | true =>
      rw [if_pos rfl]
      refine ⟨.inl rfl, rfl, rfl, ?_, .inl rfl⟩
      rw [hinitializing]
      rfl
    | false =>
      rw [if_neg Bool.false_ne_true, wp_tryCatch, wp_tryCatch]
      -- otherwise the database is opened, and the flag is down again either way
      refine wp_mono (wp_openDatabase rfl) (fun db t ht _ => ?_) fun e t ht => ?_
      · rw [ht.1]
        exact ⟨rfl, rfl, ht.2⟩
      · obtain ⟨he, hhelper, hatomic⟩ := ht
        -- the transaction is rolled back whatever was thrown
        have hleft (u : State) (hdatabase : u.helper.database = t.helper.database)
            (hversion : u.helper.version = t.helper.version)
            (hinit : u.helper.initializing = !e.isSql) (hfile : u.file = t.rolledBack) :
            Left s e u := by
          rw [hhelper] at hdatabase hversion
          rw [Atomic, ← hfile] at hatomic
          refine ⟨hdatabase, hversion, ?_, hatomic⟩
          rw [hinitializing]
          exact hinit
        have hopening : t.helper.initializing = true := by
          rw [hhelper]
          rfl
        cases e with
        | sql e => exact ⟨.inr he, hleft _ rfl rfl rfl rfl⟩
        | base message => exact ⟨.inr he, hleft _ rfl rfl hopening rfl⟩
        | std message => exact ⟨.inr he, hleft _ rfl rfl hopening rfl⟩
        | object => exact ⟨.inr he, hleft _ rfl rfl hopening rfl⟩

end

/-- **`getDatabase` can be called again after an exception** if and only if this is a
`SqlException`, and not the one that says that a database is being opened already. -/
theorem recovered_iff {faults : Faults} {e : Thrown} {s t : State}
    (hthrows : exec (getDatabase faults) s = (.error e, t)) :
    Recovered s t ↔ e.isSql = true ∧ s.helper.initializing = false := by
  have hleft : Left s e t := (wp_error (wp_getDatabase s) hthrows).2
  constructor
  · intro h
    have hinit := hleft.initializing_eq
    rw [h.initializing_eq] at hinit
    simpa [and_comm] using hinit.symm
  · rintro ⟨hsql, hnot⟩
    have hinit : t.helper.initializing = false := by
      rw [hleft.initializing_eq, hsql, hnot]
      rfl
    refine ⟨hleft.database_eq, hinit, hleft.file_eq, ?_, ?_, ?_⟩
    · refine wp_mono (wp_getDatabase t) (fun db u hu => ?_) fun e u hu => ?_
      · obtain ⟨hdatabase, hinit', hfile⟩ := hu hleft.database_eq
        refine ⟨hdatabase, hinit', fun hsame => ?_⟩
        rw [hfile, hsame, hleft.version_eq]
      · -- nothing throws
        rcases hu.1 with htrue | ⟨c, hc⟩
        · rw [hinit] at htrue
          cases htrue
        · cases hc
    · unfold close
      rw [wp_bind, wp_getState, hinit, if_neg Bool.false_ne_true, hleft.database_eq]
      trivial
    · unfold closeSqliteSession
      rw [wp_bind, wp_getState, hinit, if_neg Bool.false_ne_true]
      trivial

/-- A helper of version 2 for a new file. -/
def newHelper : State where
  helper := { version := 2, one_le := by decide }
  file := { userVersion := 0, transitions := [] }

/-- `onCreate` throws. -/
def failingOnCreate (e : Thrown) : Faults
  | .hook .onCreate => some e
  | _ => none

theorem recovered_iff_onCreate : ∃ t,
    exec (getDatabase (failingOnCreate (.sql (.execution "Failed to execute sql")))) newHelper =
        (.error (.sql (.execution "Failed to execute sql")), t) ∧
      t.file.transitions = [] ∧ Recovered newHelper t := by
  have hthrows : exec (getDatabase (failingOnCreate (.sql (.execution "Failed to execute sql"))))
      newHelper = (.error (.sql (.execution "Failed to execute sql")), newHelper) := rfl
  exact ⟨_, hthrows, rfl, (recovered_iff hthrows).mpr ⟨rfl, rfl⟩⟩

theorem not_recovered_onCreate : ∃ t,
    exec (getDatabase (failingOnCreate (.std "bad allocation"))) newHelper =
        (.error (.std "bad allocation"), t) ∧
      ¬Recovered newHelper t ∧
      (exec (getDatabase fun _ => none) t).1 =
        .error (.sql (.illegalState "Can't get database for called recursively")) ∧
      (exec close t).1 = .error (.sql (.illegalState "Closed during initialization")) := by
  refine ⟨_, rfl, fun h => ?_, rfl, rfl⟩
  have hinit := h.initializing_eq
  cases hinit

end EasyHttp.Db
