import EasyHttp.Db.SqliteOpenHelper
import EasyHttp.Library.Guards

/-!
# Transactions of a `SqliteDatabase`

A user of a `SqliteOpenHelper` gets its database for each call, and closes it at the end of the
call by an `AutoSqliteDatabase`. What writes does so in the scope of an `AutoSqliteTransaction`,
whose destructor rolls back unless the transaction has been committed before. Any call of the
session may fail, also the rollback, and SQLite may roll back on its own when a call fails.

* `read`, `write`, `closeSqliteSession`: the code;
* `Rests`: where the helper is between two calls;
* `wp_read`, `wp_write`, `wp_closeSqliteSession`: what the calls do from there.
-/

namespace EasyHttp.Db.SqliteTransaction

open Exec

variable {ρ β : Type}

/-- The rows on disk, those of an open transaction, and the helper. -/
structure State (ρ : Type) where
  /-- The helper, with the database that it holds. -/
  opening : Db.State
  /-- What the file holds. -/
  rows : ρ
  /-- What the statements of an open transaction have made of it. -/
  transaction : Option ρ := none

namespace State

/-- `m_database` of the helper. -/
def database (s : State ρ) : Option SqliteDatabase := s.opening.helper.database

/-- The helper keeps a database, or none. -/
def setDatabase (s : State ρ) (database : Option SqliteDatabase) : State ρ :=
  { s with opening := { s.opening with helper := { s.opening.helper with database := database } } }

/-- What a statement sees. -/
def visible (s : State ρ) : ρ := s.transaction.getD s.rows

/-- A statement outside of a transaction writes to the file. -/
def setVisible (s : State ρ) (rows : ρ) : State ρ :=
  match s.transaction with
  | some _ => { s with transaction := some rows }
  | none => { s with rows := rows }

/-- The transaction of the session, and what `isTransaction` says of it. -/
def setTransaction (s : State ρ) (isTransaction : Bool) (transaction : Option ρ) : State ρ :=
  { s.setDatabase (s.database.map fun db => { db with isTransaction := isTransaction }) with
    transaction := transaction }

/-- A query writes nothing. -/
theorem setVisible_visible (s : State ρ) : s.setVisible s.visible = s := by
  rcases s with ⟨opening, rows, transaction⟩
  cases transaction <;> rfl

/-- The helper holds a database that is open. -/
def isOpen (s : State ρ) : Bool := s.database.any SqliteDatabase.opened

end State

/-- What a call that fails leaves of the transaction. -/
inductive Failure where
  | keeps
  /-- SQLite has rolled it back; `isTransaction` may not have noticed. -/
  | rollsBack (noticed : Bool)
deriving DecidableEq

/-- What a failing statement leaves of the transaction. -/
def Failure.apply (failure : Failure) (s : State ρ) : State ρ :=
  match failure with
  | .keeps => s
  | .rollsBack noticed =>
    s.setTransaction (!noticed && s.database.any SqliteDatabase.isTransaction) none

/-- What befalls the calls of one operation. -/
structure Faults where
  opening : Db.Faults := fun _ => none
  beginTransaction : Bool := false
  statement : Option (SqlException × Failure) := none
  setTransactionSuccessful : Option Failure := none
  endTransaction : Option Failure := none

/-- Code on this state. -/
abbrev Code (ρ α : Type) := Exec Thrown (State ρ) α

/-- A closed database answers nothing. -/
def throwExceptionIfIllegalState : Code ρ SqliteDatabase := do
  match (← getState).database.filter fun db => db.session && db.opened with
  | some db => return db
  | none => throw (.sql (.illegalState "SqliteDatabase Session is not created"))

/-- The rows of the transaction are those on disk at first. -/
def beginTransaction (faults : Faults) : Code ρ Unit := do
  let _ ← throwExceptionIfIllegalState
  let s ← getState
  if faults.beginTransaction || s.transaction.isSome then
    throw (.sql (.illegalState "Can't begin transaction"))
  modifyState fun s => s.setTransaction true (some s.rows)

/-- `insert`, `replace`, `deleteRows` and `update`. -/
def execute (faults : Faults) (statement : ρ → Except SqlException (β × ρ)) : Code ρ β := do
  let _ ← throwExceptionIfIllegalState
  match faults.statement with
  | some (e, failure) =>
    modifyState failure.apply
    throw (.sql e)
  | none =>
    let (answer, rows) ← lift ((statement (← getState).visible).mapError Thrown.sql)
    modifyState fun s => s.setVisible rows
    return answer

/-- A statement that reads. -/
def query (faults : Faults) (select : ρ → β) : Code ρ β :=
  execute faults fun rows => .ok (select rows, rows)

/-- The commit. -/
def setTransactionSuccessful (faults : Faults) : Code ρ Unit := do
  let _ ← throwExceptionIfIllegalState
  match (← getState).transaction, faults.setTransactionSuccessful with
  | some rows, none => modifyState fun s => { s.setTransaction false none with rows := rows }
  | _, failure =>
    modifyState (failure.getD .keeps).apply
    throw (.sql (.illegalState "Can't set transaction successful"))

/-- The rollback. -/
def endTransaction (faults : Faults) : Code ρ Unit := do
  let db ← throwExceptionIfIllegalState
  if db.isTransaction then
    match (← getState).transaction, faults.endTransaction with
    | some _, none => modifyState fun s => s.setTransaction false none
    | _, failure =>
      modifyState (failure.getD .keeps).apply
      throw (.sql (.illegalState "Can't end transaction"))

/-- The session goes. -/
def close : Code ρ Unit := do
  match (← getState).database with
  | some db =>
    let db ← lift (db.close.mapError Thrown.sql)
    modifyState fun s => s.setDatabase (some db)
  | none => throw (.sql (.illegalState "SqliteDatabase Session is not created"))

/-- The destructors ignore a `SqlException`. -/
def ignoreSqlException (x : Code ρ Unit) : Code ρ Unit :=
  Exec.tryCatch x fun e =>
    match e with
    | .sql _ => pure ()
    | e => throw e

/-- The scope of an `AutoSqliteDatabase`. -/
def autoSqliteDatabase (x : Code ρ β) : Code ρ β := guarded (ignoreSqlException close) x

/-- The scope of an `AutoSqliteTransaction`. -/
def autoSqliteTransaction (faults : Faults) (x : Code ρ β) : Code ρ β := do
  beginTransaction faults
  guarded (ignoreSqlException (endTransaction faults)) x

/-- A database that is not open any more is released, and with it its session. -/
def getDatabase (faults : Faults) : Code ρ Unit := do
  modifyState fun s => if s.isOpen then s else { s with transaction := none }
  let _ ← zoom State.opening (fun s opening => { s with opening := opening })
    (Db.getDatabase faults.opening)

/-- A call that queries. -/
def read (faults : Faults) (select : ρ → β) : Code ρ β := do
  getDatabase faults
  autoSqliteDatabase (query faults select)

/-- A call that writes. -/
def write (faults : Faults) (statement : ρ → Except SqlException (β × ρ)) : Code ρ β := do
  getDatabase faults
  autoSqliteDatabase <| autoSqliteTransaction faults do
    let answer ← execute faults statement
    setTransactionSuccessful faults
    return answer

/-- A session that is closed rolls back. -/
def closeSqliteSession : Code ρ Unit := do
  zoom State.opening (fun s opening => { s with opening := opening }) Db.closeSqliteSession
  modifyState fun s => { s with transaction := none }

/-! ## What the calls do -/

/-- The database is open, with this of its session. -/
structure At (rows : ρ) (transaction : Option ρ) (isTransaction : Bool) (s : State ρ) : Prop where
  rows_eq : s.rows = rows
  transaction_eq : s.transaction = transaction
  database_eq : s.database = some { isTransaction := isTransaction }
  initializing_eq : s.opening.helper.initializing = false

/-- Between two calls the database is closed, or it is in a transaction. -/
structure Rests (rows : ρ) (transaction : Option ρ) (s : State ρ) : Prop where
  rows_eq : s.rows = rows
  transaction_eq : s.transaction = transaction
  closed_or_open : s.isOpen = false ∧ transaction = none ∨
    s.database = some { isTransaction := true } ∧ s.opening.helper.initializing = false

/-- The transaction after a call that has failed. -/
def Failure.left (failure : Failure) (transaction : Option ρ) : Option ρ :=
  match failure with
  | .keeps => transaction
  | .rollsBack _ => none

/-- What `isTransaction` says after a call that has failed. -/
def Failure.reports (failure : Failure) (isTransaction : Bool) : Bool :=
  match failure with
  | .keeps => isTransaction
  | .rollsBack noticed => !noticed && isTransaction

section
variable {rows : ρ} {transaction : Option ρ} {isTransaction : Bool} {s : State ρ} {faults : Faults}
  {E : Thrown → State ρ → Prop}

namespace At

/-- Another transaction, and what the database thinks of it. -/
theorem setTransaction (h : At rows transaction isTransaction s) (isTransaction' : Bool)
    (transaction' : Option ρ) :
    At rows transaction' isTransaction' (s.setTransaction isTransaction' transaction') := by
  refine ⟨h.rows_eq, rfl, ?_, h.initializing_eq⟩
  show s.database.map _ = _
  rw [h.database_eq]
  rfl

/-- The state after a failure. -/
theorem apply (h : At rows transaction isTransaction s) (failure : Failure) :
    At rows (failure.left transaction) (failure.reports isTransaction) (failure.apply s) := by
  cases failure with
  | keeps => exact h
  | rollsBack noticed =>
    unfold Failure.apply
    rw [h.database_eq]
    exact h.setTransaction _ _

/-- Inside a transaction its own rows are seen. -/
theorem visible (h : At rows transaction isTransaction s) :
    s.visible = transaction.getD rows := by
  rw [State.visible, h.transaction_eq, h.rows_eq]

/-- A statement writes what is seen. -/
theorem setVisible {written : ρ} (h : At rows (some written) isTransaction s) (written' : ρ) :
    At rows (some written') isTransaction (s.setVisible written') := by
  unfold State.setVisible
  rw [h.transaction_eq]
  exact ⟨h.rows_eq, rfl, h.database_eq, h.initializing_eq⟩

/-- An open database may be used. -/
theorem wp_throwExceptionIfIllegalState {Q : SqliteDatabase → State ρ → Prop}
    (h : At rows transaction isTransaction s) :
    wp throwExceptionIfIllegalState Q E s ↔ Q { isTransaction := isTransaction } s := by
  unfold throwExceptionIfIllegalState
  rw [wp_bind, wp_getState, h.database_eq]
  exact wp_pure

end At

/-- A transaction begins only where none is open. -/
theorem wp_beginTransaction (h : At rows transaction isTransaction s) :
    wp (beginTransaction faults)
      (fun _ t => faults.beginTransaction = false ∧ transaction = none ∧ At rows (some rows) true t)
      (fun e t => e = .sql (.illegalState "Can't begin transaction") ∧
        (faults.beginTransaction = true ∨ transaction ≠ none) ∧
        At rows transaction isTransaction t) s := by
  unfold beginTransaction
  rw [wp_bind, h.wp_throwExceptionIfIllegalState, wp_bind, wp_getState, h.transaction_eq]
  cases hfails : faults.beginTransaction with
  | true => exact ⟨rfl, .inl rfl, h⟩
  | false =>
    cases htransaction : transaction with
    | some rows => exact ⟨rfl, .inr (Option.some_ne_none rows), htransaction ▸ h⟩
    | none =>
      refine ⟨rfl, rfl, ?_⟩
      show At rows (some rows) true (s.setTransaction true (some s.rows))
      rw [h.rows_eq]
      exact h.setTransaction _ _

/-- A statement in a transaction. -/
theorem wp_execute {statement : ρ → Except SqlException (β × ρ)} {written : ρ}
    (h : At rows (some written) isTransaction s) :
    wp (execute faults statement)
      (fun answer t => faults.statement = none ∧ ∃ written',
        statement written = .ok (answer, written') ∧ At rows (some written') isTransaction t)
      (fun e t => (∃ e', e = .sql e' ∧ (faults.statement ≠ none ∨ statement written = .error e')) ∧
        ∃ failure : Failure,
          At rows (failure.left (some written)) (failure.reports isTransaction) t) s := by
  unfold execute
  rw [wp_bind, h.wp_throwExceptionIfIllegalState]
  cases hfault : faults.statement with
  | some fault =>
    rcases fault with ⟨e, failure⟩
    exact ⟨⟨e, rfl, .inl (Option.some_ne_none _)⟩, failure, h.apply failure⟩
  | none =>
    dsimp only
    rw [wp_bind, wp_getState, wp_bind, wp_lift, h.visible]
    refine ⟨fun a ha => ?_, fun e he => ?_⟩
    · rcases a with ⟨answer, written'⟩
      exact ⟨rfl, written', mapError_eq_ok.mp ha, h.setVisible written'⟩
    · refine ⟨?_, .keeps, h⟩
      cases hstatement : statement ((some written).getD rows) with
      | ok a =>
        rw [hstatement] at he
        cases he
      | error e' =>
        rw [hstatement] at he
        cases he
        exact ⟨e', rfl, .inr hstatement⟩

/-- A query sees what is visible, and changes nothing. -/
theorem wp_query {select : ρ → β} (h : At rows transaction isTransaction s) :
    wp (query faults select)
      (fun answer t => answer = select (transaction.getD rows) ∧
        At rows transaction isTransaction t)
      (fun e t => e.isSql = true ∧ ∃ e' failure, faults.statement = some (e', failure) ∧
        At rows (failure.left transaction) (failure.reports isTransaction) t) s := by
  unfold query execute
  rw [wp_bind, h.wp_throwExceptionIfIllegalState]
  cases hfault : faults.statement with
  | some fault =>
    rcases fault with ⟨e, failure⟩
    exact ⟨rfl, e, failure, rfl, h.apply failure⟩
  | none =>
    dsimp only
    rw [wp_bind, wp_getState, wp_bind, wp_lift]
    refine ⟨fun a ha => ?_, fun e he => by cases he⟩
    cases ha
    refine ⟨by rw [h.visible], ?_⟩
    show At rows transaction isTransaction (s.setVisible s.visible)
    rw [s.setVisible_visible]
    exact h

/-- A commit makes the rows of the transaction those on disk. -/
theorem wp_setTransactionSuccessful {written : ρ} (h : At rows (some written) isTransaction s) :
    wp (setTransactionSuccessful faults)
      (fun _ t => At written none false t)
      (fun e t => e.isSql = true ∧ ∃ failure, faults.setTransactionSuccessful = some failure ∧
        At rows (failure.left (some written)) (failure.reports isTransaction) t) s := by
  unfold setTransactionSuccessful
  rw [wp_bind, h.wp_throwExceptionIfIllegalState, wp_bind, wp_getState, h.transaction_eq]
  cases hfault : faults.setTransactionSuccessful with
  | some failure => exact ⟨rfl, failure, rfl, h.apply failure⟩
  | none =>
    have hended := h.setTransaction false none
    exact ⟨rfl, hended.transaction_eq, hended.database_eq, hended.initializing_eq⟩

/-- The destructor of an `AutoSqliteTransaction`. -/
theorem wp_endTransaction (h : At rows transaction isTransaction s)
    (hflag : transaction ≠ none → isTransaction = true) :
    wp (ignoreSqlException (endTransaction faults))
      (fun _ t => ∃ transaction' isTransaction', At rows transaction' isTransaction' t ∧
        (transaction' ≠ none → isTransaction' = true) ∧
        (transaction' = none ∨ transaction' = transaction ∧ faults.endTransaction = some .keeps))
      E s := by
  unfold ignoreSqlException endTransaction
  rw [wp_tryCatch, wp_bind, h.wp_throwExceptionIfIllegalState]
  -- without the flag there is no transaction, and nothing to end
  cases isTransaction with
  | false =>
    have hnone : transaction = none := by
      by_contra hne
      cases hflag hne
    exact ⟨_, _, h, hflag, .inl hnone⟩
  | true =>
    show wp (getState >>= _) _ _ s
    rw [wp_bind, wp_getState, h.transaction_eq]
    -- the transaction was ended by the failure before
    cases transaction with
    | none =>
      have hended := h.apply (faults.endTransaction.getD .keeps)
      have hnone : (faults.endTransaction.getD .keeps).left (none : Option ρ) = none := by
        cases faults.endTransaction.getD .keeps <;> rfl
      rw [hnone] at hended
      exact ⟨_, _, hended, fun hne => (hne rfl).elim, .inl rfl⟩
    | some written =>
      -- the rollback succeeds, or its failure decides what is left
      cases hfault : faults.endTransaction with
      | none => exact ⟨_, _, h.setTransaction false none, fun hne => (hne rfl).elim, .inl rfl⟩
      | some failure =>
        refine ⟨_, _, h.apply failure, ?_, ?_⟩
        · cases failure with
          | keeps => exact fun _ => rfl
          | rollsBack noticed => exact fun hne => (hne rfl).elim
        · cases failure with
          | keeps => exact .inr ⟨rfl, rfl⟩
          | rollsBack noticed => exact .inl rfl

/-- The destructor of an `AutoSqliteDatabase`. -/
theorem wp_close (h : At rows transaction isTransaction s)
    (hflag : transaction ≠ none → isTransaction = true) :
    wp (ignoreSqlException close)
      (fun _ t => Rests rows transaction t ∧ t.opening.helper.initializing = false) E s := by
  unfold ignoreSqlException close
  rw [wp_tryCatch, wp_bind, wp_getState, h.database_eq]
  cases isTransaction with
  | false =>
    have hnone : transaction = none := by
      by_contra hne
      cases hflag hne
    exact ⟨⟨h.rows_eq, h.transaction_eq, .inl ⟨rfl, hnone⟩⟩, h.initializing_eq⟩
  | true => exact ⟨⟨h.rows_eq, h.transaction_eq, .inr ⟨h.database_eq, h.initializing_eq⟩⟩,
      h.initializing_eq⟩

end

/-! ## Opening the database -/

section
variable {faults : Db.Faults} {s : Db.State}

/-- A new database is open. -/
theorem wp_openDatabase_new (hdatabase : s.helper.database = none) :
    wp (openDatabase faults) (fun db _ => db = {}) (fun _ _ => True) s := by
  have hthrows : ∀ e, faults.Throw e → True := fun _ _ => trivial
  unfold openDatabase setInitializing
  rw [wp_bind, wp_modifyState, wp_bind, wp_getState, wp_bind, wp_modifyState, hdatabase]
  unfold createDatabase
  rw [wp_bind, wp_bind]
  refine wp_call hthrows ?_
  rw [wp_pure, wp_bind]
  refine wp_call hthrows ?_
  rw [wp_bind]
  refine wp_call hthrows ?_
  rw [wp_bind, wp_getState, wp_bind]
  refine wp_mono (wp_trivial _ _) (fun _ t _ => ?_) fun _ _ _ => trivial
  rw [wp_bind]
  exact wp_call hthrows rfl

/-- A helper that holds no database. -/
theorem wp_getDatabase_new (hdatabase : s.helper.database = none) :
    wp (Db.getDatabase faults) (fun db _ => db = {}) (fun _ _ => True) s := by
  unfold Db.getDatabase
  rw [wp_bind, wp_getState, hdatabase]
  show wp (Db.setDatabase none >>= _) _ _ s
  unfold Db.setDatabase
  rw [wp_bind, wp_modifyState]
  cases hinitializing : s.helper.initializing with
  | true => trivial
  | false =>
    rw [if_neg Bool.false_ne_true, wp_tryCatch, wp_tryCatch]
    refine wp_mono (wp_openDatabase_new rfl) (fun _ _ h => h) fun e t _ => ?_
    cases e <;> exact trivial

/-- What `getDatabase` throws when it has to open the database. -/
structure OpenFailed (faults : Db.Faults) (s : Db.State) (e : Thrown) (t : Db.State) : Prop where
  database_eq : t.helper.database = none
  initializing_eq : t.helper.initializing = (s.helper.initializing || !e.isSql)
  thrown : s.helper.initializing = true ∨ faults.Throw e

/-- A database that is not open is replaced. -/
theorem wp_getDatabase_closed (hclosed : s.helper.database.filter SqliteDatabase.opened = none) :
    wp (Db.getDatabase faults)
      (fun _ t => t.helper.database = some {} ∧ t.helper.initializing = false)
      (OpenFailed faults s) s := by
  let released : Db.State := { s with helper := { s.helper with database := none } }
  have hsame : exec (Db.getDatabase faults) s = exec (Db.getDatabase faults) released := by
    unfold Db.getDatabase
    rw [exec_bind_ok (exec_getState s), exec_bind_ok (exec_getState released), hclosed]
    rfl
  have hwp : wp (Db.getDatabase faults)
      (fun _ t => t.helper.database = some {} ∧ t.helper.initializing = false)
      (OpenFailed faults s) released := by
    refine wp_mono (wp_and (wp_getDatabase released) (wp_getDatabase_new rfl))
      (fun db t ht => ?_) fun e t ht => ?_
    · obtain ⟨hdatabase, hinitializing, -⟩ := ht.1 rfl
      rw [ht.2] at hdatabase
      exact ⟨hdatabase, hinitializing⟩
    · obtain ⟨⟨hthrown, hleft⟩, -⟩ := ht
      exact ⟨hleft.database_eq, hleft.initializing_eq, hthrown⟩
  unfold wp
  rw [hsame]
  exact hwp

end

/-! ## The operations -/

section
variable {rows : ρ} {transaction : Option ρ} {s : State ρ} {faults : Faults}

/-- Some call of an operation fails. -/
def Faults.Fails (faults : Faults) : Prop :=
  (∃ e, faults.opening.Throw e) ∨ faults.beginTransaction = true ∨ faults.statement ≠ none ∨
    faults.setTransactionSuccessful ≠ none

/-- What is left when an operation has thrown before the database was open. -/
structure NotOpened (faults : Faults) (rows : ρ) (s : State ρ) (e : Thrown) (t : State ρ) :
    Prop where
  rests : Rests rows none t
  initializing_eq : t.opening.helper.initializing = (s.opening.helper.initializing || !e.isSql)
  thrown : s.opening.helper.initializing = true ∨ faults.opening.Throw e

/-- The database is open afterwards, with the rows as they were. -/
theorem wp_getDatabase (h : Rests rows transaction s) :
    wp (getDatabase faults)
      (fun _ t => ∃ isTransaction, At rows transaction isTransaction t ∧
        (transaction ≠ none → isTransaction = true))
      (fun e t => transaction = none ∧ NotOpened faults rows s e t) s := by
  unfold getDatabase
  rw [wp_bind, wp_modifyState, wp_bind, wp_zoom]
  -- a closed database is opened, an open one is answered as it is
  obtain ⟨hclosed, hnone⟩ | ⟨hopen, hinitializing⟩ := h.closed_or_open
  · have hfilter : s.opening.helper.database.filter SqliteDatabase.opened = none := by
      cases hdatabase : s.opening.helper.database with
      | none => rfl
      | some db =>
        have hnot : db.opened = false := by
          unfold State.isOpen State.database at hclosed
          rw [hdatabase] at hclosed
          exact hclosed
        rw [Option.filter_some, hnot]
        rfl
    rw [if_neg (by rw [hclosed]; exact Bool.false_ne_true)]
    subst hnone
    -- to open a database leaves the rows as they are
    refine wp_mono (wp_getDatabase_closed hfilter) (fun db o ho => ?_) fun e o ho => ⟨rfl, ?_⟩
    · exact ⟨false, ⟨h.rows_eq, rfl, ho.1, ho.2⟩, fun hne => (hne rfl).elim⟩
    · refine ⟨⟨h.rows_eq, rfl, .inl ⟨?_, rfl⟩⟩, ho.initializing_eq, ho.thrown⟩
      show (Option.any _ o.helper.database) = false
      rw [ho.database_eq]
      rfl
  · have hisOpen : s.isOpen = true := by
      rw [State.isOpen, hopen]
      rfl
    rw [if_pos hisOpen]
    have hopening : exec (Db.getDatabase faults.opening) s.opening =
        (.ok { isTransaction := true }, s.opening) := by
      unfold Db.getDatabase
      rw [exec_bind_ok (exec_getState s.opening)]
      unfold State.database at hopen
      rw [hopen]
      rfl
    unfold wp
    rw [hopening]
    exact ⟨true, ⟨h.rows_eq, h.transaction_eq, hopen, hinitializing⟩, fun _ => rfl⟩

/-- `isTransaction` says so when the transaction is still open. -/
theorem Failure.reports_of_left {failure : Failure} {isTransaction : Bool}
    (hflag : transaction ≠ none → isTransaction = true) (hne : failure.left transaction ≠ none) :
    failure.reports isTransaction = true := by
  cases failure with
  | keeps => exact hflag hne
  | rollsBack noticed => exact (hne rfl).elim

/-- A read answers from what is visible. -/
theorem wp_read {select : ρ → β} (h : Rests rows transaction s) :
    wp (read faults select)
      (fun answer t => answer = select (transaction.getD rows) ∧ Rests rows transaction t ∧
        t.opening.helper.initializing = false)
      (fun e t => transaction = none ∧ NotOpened faults rows s e t ∨
        e.isSql = true ∧ t.opening.helper.initializing = false ∧
          ∃ e' failure, faults.statement = some (e', failure) ∧
            Rests rows (failure.left transaction) t) s := by
  unfold read
  rw [wp_bind]
  refine wp_mono (wp_getDatabase h) (fun _ t ht => ?_) fun e t ht => .inl ht
  obtain ⟨isTransaction, hat, hflag⟩ := ht
  unfold autoSqliteDatabase
  rw [wp_guarded]
  refine wp_mono (wp_query hat) (fun answer u hu => ?_) fun e u hu => ?_
  · exact wp_mono (wp_close hu.2 hflag) (fun _ v hv => ⟨hu.1, hv⟩) fun _ _ he => he
  · obtain ⟨hsql, e', failure, hfault, hafter⟩ := hu
    exact wp_mono (wp_close hafter (Failure.reports_of_left hflag))
      (fun _ v hv => .inr ⟨hsql, hv.2, e', failure, hfault, hv.1⟩) fun _ _ he => he

/-- Some call fails, or the statement is refused. -/
def WriteFails (faults : Faults) (statement : ρ → Except SqlException (β × ρ)) (rows : ρ) : Prop :=
  faults.Fails ∨ ∃ e, statement rows = .error e

variable {statement : ρ → Except SqlException (β × ρ)}

/-- What stands in the scope of the transaction. -/
theorem wp_commit (h : At rows (some rows) true s) :
    wp (do
        let answer ← execute faults statement
        setTransactionSuccessful faults
        return answer)
      (fun answer t => ∃ rows', statement rows = .ok (answer, rows') ∧ At rows' none false t)
      (fun e t => (e.isSql = true ∧ WriteFails faults statement rows) ∧
        ∃ transaction' isTransaction', At rows transaction' isTransaction' t ∧
          (transaction' ≠ none → isTransaction' = true)) s := by
  have htrue (written : ρ) : some written ≠ none → true = true := fun _ => rfl
  rw [wp_bind]
  refine wp_mono (wp_execute h) (fun answer t ht => ?_) fun e t ht => ?_
  · obtain ⟨-, rows', hstatement, hat⟩ := ht
    rw [wp_bind]
    refine wp_mono (wp_setTransactionSuccessful hat) (fun _ u hu => ?_) fun e u hu => ?_
    · exact wp_pure.mpr ⟨rows', hstatement, hu⟩
    · obtain ⟨hsql, failure, hfault, hafter⟩ := hu
      refine ⟨⟨hsql, .inl (.inr (.inr (.inr ?_)))⟩, _, _, hafter, Failure.reports_of_left (htrue _)⟩
      rw [hfault]
      exact Option.some_ne_none failure
  · obtain ⟨⟨e', rfl, hfails⟩, failure, hafter⟩ := ht
    refine ⟨⟨rfl, ?_⟩, _, _, hafter, Failure.reports_of_left (htrue _)⟩
    rcases hfails with hfault | hrefused
    · exact .inl (.inr (.inr (.inl hfault)))
    · exact .inr ⟨e', hrefused⟩

/-- The scope of the transaction. -/
theorem wp_autoSqliteTransaction {isTransaction : Bool} (h : At rows none isTransaction s) :
    wp (autoSqliteTransaction faults do
        let answer ← execute faults statement
        setTransactionSuccessful faults
        return answer)
      (fun answer t => ∃ rows' isTransaction', statement rows = .ok (answer, rows') ∧
        At rows' none isTransaction' t)
      (fun e t => (e.isSql = true ∧ WriteFails faults statement rows) ∧
        ∃ transaction' isTransaction', At rows transaction' isTransaction' t ∧
          (transaction' ≠ none → isTransaction' = true) ∧
          (transaction' ≠ none → faults.endTransaction = some .keeps)) s := by
  unfold autoSqliteTransaction
  rw [wp_bind]
  refine wp_mono (wp_beginTransaction h) (fun _ t ht => ?_) fun e t ht => ?_
  · rw [wp_guarded]
    -- the body has run, and the transaction is ended by the destructor
    refine wp_mono (wp_commit ht.2.2) (fun answer u hu => ?_) fun e u hu => ?_
    · obtain ⟨rows', hstatement, hat⟩ := hu
      refine wp_mono (wp_endTransaction hat fun hne => (hne rfl).elim) (fun _ v hv => ?_)
        fun _ _ he => he
      obtain ⟨transaction', isTransaction', hafter, -, rfl | ⟨rfl, -⟩⟩ := hv
      · exact ⟨rows', isTransaction', hstatement, hafter⟩
      · exact ⟨rows', isTransaction', hstatement, hafter⟩
    -- the body has thrown, and the destructor rolls back
    · obtain ⟨hfails, _, _, hat, hflag⟩ := hu
      refine wp_mono (wp_endTransaction hat hflag) (fun _ v hv => ?_) fun _ _ he => he
      obtain ⟨transaction', isTransaction', hafter, hflag', hleft⟩ := hv
      refine ⟨hfails, transaction', isTransaction', hafter, hflag', fun hne => ?_⟩
      rcases hleft with hnone | ⟨-, hkeeps⟩
      · exact (hne hnone).elim
      · exact hkeeps
  -- the transaction has not begun
  · obtain ⟨rfl, hbegin | hopen, hat⟩ := ht
    · exact ⟨⟨rfl, .inl (.inr (.inl hbegin))⟩, none, isTransaction, hat, fun hne => (hne rfl).elim,
        fun hne => (hne rfl).elim⟩
    · exact (hopen rfl).elim

/-- What is left when a write has thrown. -/
inductive WriteThrew (faults : Faults) (statement : ρ → Except SqlException (β × ρ)) (rows : ρ) :
    Option ρ → Thrown → State ρ → Prop where
  /-- It has been rolled back, unless the rollback has failed. -/
  | ended {e : Thrown} {t : State ρ} (transaction' : Option ρ)
      (hfails : e.isSql = true ∧ WriteFails faults statement rows)
      (hrests : Rests rows transaction' t)
      (hkeeps : transaction' ≠ none → faults.endTransaction = some .keeps) :
      WriteThrew faults statement rows none e t
  /-- An earlier transaction is still open. -/
  | stuck {written : ρ} {t : State ρ} (hrests : Rests rows (some written) t) :
      WriteThrew faults statement rows (some written)
        (.sql (.illegalState "Can't begin transaction")) t

/-- A write that returns is on disk. -/
theorem wp_write (h : Rests rows transaction s) :
    wp (write faults statement)
      (fun answer t => transaction = none ∧ ∃ rows', statement rows = .ok (answer, rows') ∧
        Rests rows' none t ∧ t.opening.helper.initializing = false)
      (fun e t => transaction = none ∧ NotOpened faults rows s e t ∨
        WriteThrew faults statement rows transaction e t ∧
          t.opening.helper.initializing = false) s := by
  unfold write
  rw [wp_bind]
  refine wp_mono (wp_getDatabase h) (fun _ t ht => ?_) fun e t ht => .inl ht
  obtain ⟨isTransaction, hat, hflag⟩ := ht
  unfold autoSqliteDatabase
  rw [wp_guarded]
  cases transaction with
  | none =>
    refine wp_mono (wp_autoSqliteTransaction hat) (fun answer u hu => ?_) fun e u hu => ?_
    · obtain ⟨rows', isTransaction', hstatement, hafter⟩ := hu
      refine wp_mono (wp_close hafter fun hne => (hne rfl).elim) (fun _ v hv => ?_) fun _ _ he => he
      exact ⟨rfl, rows', hstatement, hv⟩
    · obtain ⟨hfails, transaction', isTransaction', hafter, hflag', hkeeps⟩ := hu
      refine wp_mono (wp_close hafter hflag') (fun _ v hv => ?_) fun _ _ he => he
      exact .inr ⟨.ended transaction' hfails hv.1 hkeeps, hv.2⟩
  | some written =>
    unfold autoSqliteTransaction
    rw [wp_bind]
    refine wp_mono (wp_beginTransaction hat) (fun _ u hu => ?_) fun e u hu => ?_
    · cases hu.2.1
    · obtain ⟨rfl, -, hafter⟩ := hu
      exact wp_mono (wp_close hafter hflag) (fun _ v hv => .inr ⟨.stuck hv.1, hv.2⟩)
        fun _ _ he => he

/-- The transaction that was open is gone. -/
theorem wp_closeSqliteSession (h : Rests rows transaction s) :
    wp closeSqliteSession (fun _ t => Rests rows none t ∧ t.opening.helper.initializing = false)
      (fun e t => e = .sql (.illegalState "Closed during initialization") ∧
        s.opening.helper.initializing = true ∧ t = s) s := by
  unfold closeSqliteSession Db.closeSqliteSession
  rw [wp_bind, wp_zoom, wp_bind, wp_getState]
  cases hinitializing : s.opening.helper.initializing with
  | true => exact ⟨rfl, rfl, rfl⟩
  | false =>
    rw [if_neg Bool.false_ne_true]
    exact ⟨⟨h.rows_eq, rfl, .inl ⟨rfl, rfl⟩⟩, hinitializing⟩

end

end EasyHttp.Db.SqliteTransaction
