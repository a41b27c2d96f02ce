import EasyHttp.Db.SqliteTransaction
import EasyHttp.Library.Runs

/-!
# Runs of the users of a `SqliteDatabase`

What a store promises its users, and how far the transactions keep it.

* `committed`, `Event.Answers`: the rows after the writes that have returned, and the answers on
  these rows;
* `rows_eq_committed`: what the file holds is what the writes that returned have made of it;
* `serial_of_run`: queries see this too, as long as no rollback fails;
* `open_of_run`: and what they see after a rollback has failed.
-/

namespace EasyHttp.Db.SqliteTransaction

open Exec

variable {ρ β : Type}

/-! ## Runs -/

/-- The calls of a user. -/
inductive Action (ρ β : Type) where
  | read (faults : Faults) (select : ρ → β)
  | write (faults : Faults) (statement : ρ → Except SqlException (β × ρ))
  | closeSqliteSession

/-- A call as it is run. -/
def Action.perform : Action ρ β → Code ρ (Option β)
  | .read faults select => do return some (← SqliteTransaction.read faults select)
  | .write faults statement => do return some (← SqliteTransaction.write faults statement)
  | .closeSqliteSession => do
    SqliteTransaction.closeSqliteSession
    return none

/-- A call that has ended. -/
structure Event (ρ β : Type) where
  action : Action ρ β
  result : Except Thrown (Option β)

/-- The calls that have ended, and where they have led. -/
structure History (ρ β : Type) where
  state : State ρ
  events : List (Event ρ β) := []

/-- A call with its result. -/
def Action.event (action : Action ρ β) (s : State ρ) : Event ρ β where
  action := action
  result := (exec action.perform s).1

/-- One call more in the history. -/
def step (h : History ρ β) (action : Action ρ β) : Option (History ρ β) :=
  some {
    state := (exec action.perform h.state).2
    events := h.events ++ [action.event h.state] }

/-! ### What a store promises -/

/-- What a call makes of the rows: a write that has returned is done, any other call is not. -/
def Event.after (rows : ρ) : Event ρ β → ρ
  | ⟨.write _ statement, .ok _⟩ =>
    match statement rows with
    | .ok (_, rows') => rows'
    | .error _ => rows
  | _ => rows

/-- What the calls that have returned have made of the rows, one after another. -/
def committed (rows : ρ) (events : List (Event ρ β)) : ρ := events.foldl Event.after rows

/-- What has been returned is the answer on these rows. -/
def Event.Answers (rows : ρ) : Event ρ β → Prop
  | ⟨.read _ select, .ok answer⟩ => answer = some (select rows)
  | ⟨.write _ statement, .ok answer⟩ => ∃ a rows', statement rows = .ok (a, rows') ∧ answer = some a
  | ⟨.closeSqliteSession, .ok answer⟩ => answer = none
  | ⟨_, .error _⟩ => True

/-- Whether the call writes. -/
def Action.isWrite : Action ρ β → Bool
  | .write _ _ => true
  | _ => false

section
variable {rows written : ρ} {transaction : Option ρ} {s t : State ρ} {action : Action ρ β}

/-- The last call is the last to be applied. -/
theorem committed_append (events : List (Event ρ β)) (event : Event ρ β) :
    committed rows (events ++ [event]) = event.after (committed rows events) := by
  rw [committed, List.foldl_append]
  rfl

/-- What befalls the calls of an operation. -/
def Action.faults : Action ρ β → Faults
  | .read faults _ | .write faults _ => faults
  | .closeSqliteSession => {}

/-- The rollback does not fail with the transaction still open, and what opening the database
throws is a `SqlException`. -/
structure Action.Recovers (action : Action ρ β) : Prop where
  rollback : action.faults.endTransaction ≠ some .keeps
  opening : ∀ e, action.faults.opening.Throw e → e.isSql = true

/-- No call fails, and the statement is not refused. -/
def Action.Quiet (rows : ρ) : Action ρ β → Prop
  | .read faults _ => ¬faults.Fails
  | .write faults statement => ¬WriteFails faults statement rows
  | .closeSqliteSession => True

/-- What one call does, from where no transaction is open or from where one is. -/
structure Performed (rows : ρ) (transaction : Option ρ) (s : State ρ) (event : Event ρ β)
    (t : State ρ) : Prop where
  rests : ∃ transaction', Rests (event.after rows) transaction' t ∧
    (transaction = none → event.action.Recovers → transaction' = none)
  initializing : s.opening.helper.initializing = false → event.action.Recovers →
    t.opening.helper.initializing = false
  write : event.action.isWrite = true → event.Answers rows
  read : event.action.isWrite = false → event.Answers (transaction.getD rows)
  returns : transaction = none → s.opening.helper.initializing = false →
    event.action.Quiet rows → ∃ answer, event.result = .ok answer

/-- A call that throws applies nothing. -/
theorem Event.after_error (e : Thrown) : Event.after rows ⟨action, .error e⟩ = rows := by
  cases action <;> rfl

/-- A call that returns nothing to be answered. -/
theorem Performed.of_error {e : Thrown} {s t : State ρ} {transaction' : Option ρ}
    (hrests : Rests rows transaction' t)
    (hrecovers : transaction = none → action.Recovers → transaction' = none)
    (hinitializing : s.opening.helper.initializing = false → action.Recovers →
      t.opening.helper.initializing = false)
    (hquiet : transaction = none → s.opening.helper.initializing = false → ¬action.Quiet rows) :
    Performed rows transaction s ⟨action, .error e⟩ t := by
  have hanswers (rows : ρ) : Event.Answers rows ⟨action, .error e⟩ := by
    cases action <;> trivial
  refine ⟨⟨transaction', ?_, hrecovers⟩, hinitializing, fun _ => hanswers _, fun _ => hanswers _,
    fun hnone hinit h => (hquiet hnone hinit h).elim⟩
  rw [Event.after_error]
  exact hrests

/-- A call that is performed answers from what is committed. -/
theorem Performed.answers {event : Event ρ β} (h : Performed rows none s event t) :
    event.Answers rows := by
  cases hwrite : event.action.isWrite with
  | true => exact h.write hwrite
  | false => exact h.read hwrite

/-- A call whose database does not open throws. -/
theorem NotOpened.performed {faults : Faults} {e : Thrown} (h : NotOpened faults rows s e t)
    (hfaults : action.faults = faults) (hquiet : faults.Fails → ¬action.Quiet rows) :
    Performed rows transaction s ⟨action, .error e⟩ t := by
  refine .of_error h.rests (fun _ _ => rfl) (fun hinit hrecovers => ?_) fun _ hinit => hquiet ?_
  · obtain hinit' | hthrow := h.thrown
    · rw [hinit'] at hinit
      cases hinit
    · rw [h.initializing_eq, hinit, hrecovers.opening e (hfaults ▸ hthrow)]
      rfl
  · obtain hinit' | hthrow := h.thrown
    · rw [hinit'] at hinit
      cases hinit
    · exact .inl ⟨e, hthrow⟩

/-- Each call is performed on the rows at rest. -/
theorem performed (h : Rests rows transaction s) (action : Action ρ β) :
    Performed rows transaction s (action.event s) (exec action.perform s).2 := by
  refine wp_result (P := fun result t => Performed rows transaction s ⟨action, result⟩ t) ?_
  cases action with
  | read faults select =>
    rw [Action.perform, wp_bind]
    refine wp_mono (wp_read h) (fun answer t ht => wp_pure.mpr ?_) fun e t ht => ?_
    -- the read answers from the rows at rest
    · obtain ⟨rfl, hrests, hinit⟩ := ht
      exact ⟨⟨transaction, hrests, fun hnone _ => hnone⟩, fun _ _ => hinit,
        (fun hwrite => by cases hwrite), fun _ => rfl, fun _ _ _ => ⟨_, rfl⟩⟩
    -- it throws: the database cannot be opened, or the statement fails
    · obtain ⟨-, hclosed⟩ | ⟨-, hinit, e', failure, hfault, hrests⟩ := ht
      · exact hclosed.performed rfl fun hfails => not_not_intro hfails
      · refine .of_error hrests (fun hnone _ => ?_) (fun _ _ => hinit) fun _ _ hquiet =>
          hquiet (.inr (.inr (.inl ?_)))
        · rw [hnone]
          cases failure <;> rfl
        · rw [hfault]
          exact Option.some_ne_none _
  | write faults statement =>
    rw [Action.perform, wp_bind]
    refine wp_mono (wp_write h) (fun answer t ht => wp_pure.mpr ?_) fun e t ht => ?_
    · obtain ⟨-, rows', hstatement, hrests, hinit⟩ := ht
      -- the write has committed its rows
      refine ⟨⟨none, ?_, fun _ _ => rfl⟩, fun _ _ => hinit,
        fun _ => ⟨answer, rows', hstatement, rfl⟩, (fun hread => by cases hread),
        fun _ _ _ => ⟨_, rfl⟩⟩
      rw [Event.after, hstatement]
      exact hrests
    -- it throws: nothing is committed, and a failed commit may stay open
    · obtain ⟨-, hclosed⟩ | ⟨⟨transaction', hfails, hrests, hkeeps⟩ | hrests, hinit⟩ := ht
      · exact hclosed.performed rfl fun hfails => not_not_intro (.inl hfails)
      · refine .of_error hrests (fun _ hrecovers => ?_) (fun _ _ => hinit) fun _ _ hquiet =>
          hquiet hfails.2
        by_contra hne
        exact hrecovers.rollback (hkeeps hne)
      · exact .of_error hrests (fun hnone => by cases hnone) (fun _ _ => hinit)
          fun hnone => by cases hnone
  | closeSqliteSession =>
    rw [Action.perform, wp_bind]
    refine wp_mono (wp_closeSqliteSession h) (fun _ t ht => wp_pure.mpr ?_) fun e t ht => ?_
    · exact ⟨⟨none, ht.1, fun _ _ => rfl⟩, fun _ _ => ht.2, fun _ => rfl, fun _ => rfl,
        fun _ _ _ => ⟨_, rfl⟩⟩
    · obtain ⟨-, hinit, rfl⟩ := ht
      refine .of_error h (fun hnone _ => hnone) (fun hinit _ => hinit) fun _ hnot => ?_
      rw [hinit] at hnot
      cases hnot

/-- Along a run, what the file holds is what has been committed. -/
def Committed (rows : ρ) (h : History ρ β) : Prop :=
  ∃ transaction, Rests (committed rows h.events) transaction h.state

/-- No transaction is open, and the database can be opened. -/
structure Settled (rows : ρ) (h : History ρ β) : Prop where
  rests : Rests (committed rows h.events) none h.state
  initializing_eq : h.state.opening.helper.initializing = false

variable {h h' : History ρ β}

/-- The rows stay those that were committed. -/
theorem committed_step (hcommitted : Committed rows h) (hstep : step h action = some h') :
    Committed rows h' := by
  obtain ⟨transaction, hrests⟩ := hcommitted
  obtain ⟨transaction', hrests', -⟩ := (performed hrests action).rests
  cases hstep
  refine ⟨transaction', ?_⟩
  rw [committed_append]
  exact hrests'

/-- A call leaves no transaction open, if a failed commit is rolled back. -/
theorem settled_step (hsettled : Settled rows h) (hrecovers : action.Recovers)
    (hstep : step h action = some h') : Settled rows h' := by
  have hperformed := performed hsettled.rests action
  obtain ⟨transaction', hrests', hnone⟩ := hperformed.rests
  cases hstep
  rw [hnone rfl hrecovers] at hrests'
  refine ⟨?_, hperformed.initializing hsettled.initializing_eq hrecovers⟩
  rw [committed_append]
  exact hrests'

/-- A helper that has not been used. -/
structure State.New (s : State ρ) : Prop where
  database_eq : s.database = none
  initializing_eq : s.opening.helper.initializing = false
  transaction_eq : s.transaction = none

/-- A new helper has no transaction. -/
theorem State.New.rests (hnew : s.New) : Rests s.rows none s := by
  refine ⟨rfl, hnew.transaction_eq, .inl ⟨?_, rfl⟩⟩
  rw [State.isOpen, hnew.database_eq]
  rfl

theorem State.New.settled (hnew : s.New) : Settled s.rows ({ state := s } : History ρ β) :=
  ⟨hnew.rests, hnew.initializing_eq⟩

theorem State.New.committed (hnew : s.New) : Committed s.rows ({ state := s } : History ρ β) :=
  ⟨none, hnew.rests⟩

/-- The rows are those that were committed in every run. -/
theorem committed_of_run (hnew : s.New) {actions : List (Action ρ β)}
    (hrun : Runs.run step { state := s } actions = some h) : Committed s.rows h :=
  Runs.run_invariant (fun _ _ _ h _ hstep => committed_step h hstep) hnew.committed hrun
    (Runs.everyStep_true _ _)

/-- **What the file holds is what the writes that returned have made of it**, whatever calls of
the session fail, and each of them has been answered on what the ones before have made of it. -/
theorem rows_eq_committed (hnew : s.New) {actions : List (Action ρ β)}
    (hrun : Runs.run step { state := s } actions = some h) :
    h.state.rows = committed s.rows h.events ∧
      Runs.EveryStep step (fun g action => action.isWrite = true →
        (action.event g.state).Answers (committed s.rows g.events)) { state := s } actions := by
  constructor
  · obtain ⟨_, hrests⟩ := committed_of_run hnew hrun
    exact hrests.rows_eq
  · refine Runs.everyStep_of_invariant (fun _ _ _ h _ hstep => committed_step h hstep)
      (fun g action hg _ hwrite => ?_) hnew.committed (Runs.everyStep_true _ _)
    obtain ⟨_, hrests⟩ := hg
    exact (performed hrests action).write hwrite

/-- A user of lists of numbers, which are answered as they are after the call. -/
def insertNumber (n : ℕ) (numbers : List ℕ) : Except SqlException (List ℕ × List ℕ) :=
  .ok (numbers ++ [n], numbers ++ [n])

/-- A new helper over an empty table. -/
def newState : State (List ℕ) := { opening := newHelper, rows := [] }

/-- The commit of the second write fails, and then perhaps the rollback. -/
def failingCommit (endTransaction : Option Failure) : List (Action (List ℕ) (List ℕ)) := [
  .write {} (insertNumber 1),
  .write { setTransactionSuccessful := some .keeps, endTransaction := endTransaction }
    (insertNumber 2)]

theorem newState_new : newState.New := ⟨rfl, rfl, rfl⟩

theorem rows_eq_committed_failingCommit : ∃ h,
    Runs.run step { state := newState } (failingCommit (some .keeps)) = some h ∧
      h.state.visible = [1, 2] ∧ h.state.rows = [1] ∧
      (h.state.rows = committed newState.rows h.events ∧
        Runs.EveryStep step (fun g action => action.isWrite = true →
          (action.event g.state).Answers (committed newState.rows g.events)) { state := newState }
          (failingCommit (some .keeps))) :=
  ⟨_, rfl, rfl, rfl, rows_eq_committed newState_new rfl⟩

/-- **Each call that returns has been answered on what the writes before it have made of the
file**, and each call returns when none of its calls fails, in a run whose rollbacks work. -/
theorem serial_of_run (hnew : s.New) {actions : List (Action ρ β)}
    (hrecovers : ∀ action ∈ actions, action.Recovers) :
    Runs.EveryStep step (fun g action =>
      (action.event g.state).Answers (committed s.rows g.events) ∧
        (action.Quiet (committed s.rows g.events) →
          ∃ answer, (action.event g.state).result = .ok answer)) { state := s } actions := by
  refine Runs.everyStep_of_invariant (fun _ _ _ h hrecovers hstep => settled_step h hrecovers hstep)
    (fun g action hg _ => ?_) hnew.settled (Runs.everyStep_of_forall hrecovers _)
  have hperformed := performed hg.rests action
  exact ⟨hperformed.answers, hperformed.returns rfl hg.initializing_eq⟩

theorem serial_of_run_failingCommit :
    Runs.EveryStep step (fun g action =>
      (action.event g.state).Answers (committed newState.rows g.events) ∧
        (action.Quiet (committed newState.rows g.events) →
          ∃ answer, (action.event g.state).result = .ok answer))
      { state := newState } (failingCommit none ++ [.read {} id]) := by
  refine serial_of_run newState_new fun action hmem => ?_
  have hquiet : ∀ e, ¬Db.Faults.Throw (fun _ => none) e := by
    rintro e ⟨c, hc⟩
    cases hc
  simp only [failingCommit, List.cons_append, List.nil_append, List.mem_cons, List.not_mem_nil,
    or_false] at hmem
  rcases hmem with rfl | rfl | rfl
  · exact ⟨nofun, fun e he => (hquiet e he).elim⟩
  · exact ⟨nofun, fun e he => (hquiet e he).elim⟩
  · exact ⟨nofun, fun e he => (hquiet e he).elim⟩

/-! ### After a rollback has failed -/

/-- A call that does not close the session, and no SQLite error in it rolls back. -/
def Action.KeepsTransaction : Action ρ β → Prop
  | .read faults _ => ∀ e noticed, faults.statement ≠ some (e, .rollsBack noticed)
  | .write _ _ => True
  | .closeSqliteSession => False

/-- A write is refused, and a query sees what has not been committed. -/
def Event.SeesOpen (written : ρ) : Event ρ β → Prop
  | ⟨.write _ _, result⟩ => result = .error (.sql (.illegalState "Can't begin transaction"))
  | ⟨.read _ select, .ok answer⟩ => answer = some (select written)
  | _ => True

/-- A call inside a transaction that was left open sees its rows. -/
theorem performed_open (h : Rests rows (some written) s) (hkeeps : action.KeepsTransaction) :
    (action.event s).SeesOpen written ∧ Rests rows (some written) (exec action.perform s).2 := by
  refine wp_result (P := fun result t =>
    Event.SeesOpen written ⟨action, result⟩ ∧ Rests rows (some written) t) ?_
  cases action with
  | read faults select =>
    rw [Action.perform, wp_bind]
    refine wp_mono (wp_read h) (fun answer t ht => wp_pure.mpr ?_) fun e t ht => ⟨trivial, ?_⟩
    · obtain ⟨rfl, hrests, -⟩ := ht
      exact ⟨rfl, hrests⟩
    · obtain ⟨hnone, -⟩ | ⟨-, -, e', failure, hfault, hrests⟩ := ht
      · cases hnone
      · cases failure with
        | keeps => exact hrests
        | rollsBack noticed => exact (hkeeps e' noticed hfault).elim
  | write faults statement =>
    rw [Action.perform, wp_bind]
    refine wp_mono (wp_write h) (fun answer t ht => by cases ht.1) fun e t ht => ?_
    obtain ⟨hnone, -⟩ | ⟨hthrew, -⟩ := ht
    · cases hnone
    · cases hthrew with
      | stuck hrests => exact ⟨rfl, hrests⟩
  | closeSqliteSession => exact hkeeps.elim

/-- **After a rollback has failed** every write is refused and every query is answered on what has
not been committed, until the session is closed, which gives up the transaction. -/
theorem open_of_run (hnew : s.New) {before actions : List (Action ρ β)}
    (hbefore : Runs.run step { state := s } before = some h)
    (hopen : h.state.transaction = some written)
    (hkeeps : ∀ action ∈ actions, action.KeepsTransaction) :
    Runs.EveryStep step (fun g action => (action.event g.state).SeesOpen written) h actions ∧
      ∀ h', Runs.run step h actions = some h' →
        h'.state.visible = written ∧ ∃ t, exec closeSqliteSession h'.state = (.ok (), t) ∧
          t.visible = committed s.rows h.events := by
  have hrests : Rests h.state.rows (some written) h.state := by
    obtain ⟨transaction, hrests⟩ := committed_of_run hnew hbefore
    have hrests' := hrests
    rwa [← hrests.rows_eq, ← hrests.transaction_eq, hopen] at hrests'
  have hrows := (rows_eq_committed hnew hbefore).1
  -- a call inside the open transaction leaves it open
  have hpres : ∀ (g : History ρ β) action g', Rests h.state.rows (some written) g.state →
      action.KeepsTransaction → step g action = some g' →
      Rests h.state.rows (some written) g'.state := by
    intro g action g' hg hkeeps hstep
    cases hstep
    exact (performed_open hg hkeeps).2
  have hevery : Runs.EveryStep step (fun _ action => action.KeepsTransaction) h actions :=
    Runs.everyStep_of_forall hkeeps h
  refine ⟨Runs.everyStep_of_invariant hpres (fun _ _ hg hkeeps => (performed_open hg hkeeps).1)
    hrests hevery, fun h' hrun => ?_⟩
  have hrests' := Runs.run_invariant hpres hrests hrun hevery
  refine ⟨by rw [State.visible, hrests'.transaction_eq]; rfl, ?_⟩
  have hinit : h'.state.opening.helper.initializing = false := by
    obtain ⟨-, hnone⟩ | ⟨-, hinit⟩ := hrests'.closed_or_open
    · cases hnone
    · exact hinit
  -- to close the session is what ends the transaction
  have hclose : wp closeSqliteSession (fun _ t => Rests h.state.rows none t) (fun _ _ => False)
      h'.state := by
    refine wp_mono (wp_closeSqliteSession hrests') (fun _ t ht => ht.1) fun e t ht => ?_
    rw [hinit] at ht
    cases ht.2.1
  unfold wp at hclose
  rcases hexec : exec closeSqliteSession h'.state with ⟨result, t⟩
  rw [hexec] at hclose
  cases result with
  | error e => exact hclose.elim
  | ok a =>
    refine ⟨t, rfl, ?_⟩
    rw [State.visible, hclose.transaction_eq, hclose.rows_eq, hrows]
    rfl

theorem open_of_run_failingCommit : ∃ h,
    Runs.run step { state := newState } (failingCommit (some .keeps)) = some h ∧
      Runs.EveryStep step (fun g action => (action.event g.state).SeesOpen [1, 2]) h
        [.read {} id, .write {} (insertNumber 3)] ∧
      ∀ h', Runs.run step h [.read {} id, .write {} (insertNumber 3)] = some h' →
        h'.state.visible = [1, 2] ∧ ∃ t, exec closeSqliteSession h'.state = (.ok (), t) ∧
          t.visible = committed newState.rows h.events := by
  obtain ⟨h, hrun, hopen⟩ : ∃ h,
      Runs.run step { state := newState } (failingCommit (some .keeps)) = some h ∧
        h.state.transaction = some [1, 2] := ⟨_, rfl, rfl⟩
  refine ⟨h, hrun, open_of_run newState_new hrun hopen fun action hmem => ?_⟩
  simp only [List.mem_cons, List.not_mem_nil, or_false] at hmem
  rcases hmem with rfl | rfl
  · exact fun _ _ => nofun
  · trivial

end

end EasyHttp.Db.SqliteTransaction
