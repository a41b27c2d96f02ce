import EasyHttp.Db.SqliteQueryBuilder
import EasyHttp.Library.ExecPost
import Mathlib.Data.Int.Notation
import Mathlib.Data.UInt

/-!
# `SqliteCursor`: moving over the rows of a result

A cursor has a `Poco::Data::RecordSet` and a row number of its own. Relative moves are made of
absolute ones, and absolute ones of single steps of the record set.

* `RowIndex`: a row number that goes to a target row if there is such a row;
* `RecordSet.Lawful`: what is relied on of Poco;
* `wp_perform`: one move of a cursor is one move of the index;
* `refinesIndex_iff`: for which results this is so.
-/

namespace EasyHttp.Db

open Exec

/-- The ways of moving a cursor. -/
inductive Move where
  | move (offset : Int32)
  | moveToFirst
  | moveToLast
  | moveToNext
  | moveToPrevious
  | moveToPosition (position : UInt32)
deriving DecidableEq

/-! ## The index -/

namespace RowIndex

/-- To the target row if there is one; otherwise nothing happens. -/
def goTo (rowCount : ℕ) (target : ℤ) (row : ℕ) : Bool × ℕ :=
  if 0 ≤ target ∧ target < rowCount then (true, target.toNat) else (false, row)

/-- The row that a move is meant to reach. -/
def target (rowCount row : ℕ) : Move → ℤ
  | .move offset => row + offset.toInt
  | .moveToFirst => 0
  | .moveToLast => rowCount - 1
  | .moveToNext => row + 1
  | .moveToPrevious => row - 1
  | .moveToPosition position => position.toNat

/-- A move of the index, and whether its target exists. -/
def step (rowCount row : ℕ) (move : Move) : Bool × ℕ :=
  goTo rowCount (target rowCount row move) row

/-- What the moves return, and the row at the end. -/
def run (rowCount : ℕ) : ℕ → List Move → List Bool × ℕ
  | row, [] => ([], row)
  | row, move :: moves =>
    let (ret, next) := step rowCount row move
    let (rets, last) := run rowCount next moves
    (ret :: rets, last)

variable {rowCount row : ℕ} {t : ℤ}

theorem goTo_pos (h : 0 ≤ t ∧ t < rowCount) : goTo rowCount t row = (true, t.toNat) := if_pos h

/-- Where the target does not exist the index stays. -/
theorem goTo_neg (h : ¬(0 ≤ t ∧ t < rowCount)) : goTo rowCount t row = (false, row) := if_neg h

/-- The index stays on a row. -/
theorem goTo_row (h : row = 0 ∨ row < rowCount) :
    (goTo rowCount t row).2 = 0 ∨ (goTo rowCount t row).2 < rowCount := by
  by_cases ht : 0 ≤ t ∧ t < rowCount
  · rw [goTo_pos ht]
    exact .inr (by show t.toNat < rowCount; omega)
  · rw [goTo_neg ht]
    exact h

end RowIndex

/-! ## `Poco::Data::RecordSet` -/

/-- The operations of `Poco::Data::RecordSet` that the cursor calls. -/
structure RecordSet (ρ : Type) where
  getTotalRowCount : ρ → ℕ
  /-- The row whose values are read. -/
  currentRow : ρ → ℕ
  moveFirst : ρ → Bool × ρ
  moveLast : ρ → Bool × ρ
  moveNext : ρ → Bool × ρ
  movePrevious : ρ → Bool × ρ

namespace RecordSet

variable {ρ : Type} (ops : RecordSet ρ)

/-- An operation goes to its target row, if there is one, and tells whether. -/
def GoesTo (op : ρ → Bool × ρ) (target : ρ → ℤ) : Prop :=
  ∀ recordSet, ops.getTotalRowCount (op recordSet).2 = ops.getTotalRowCount recordSet ∧
    ((op recordSet).1, ops.currentRow (op recordSet).2) =
      RowIndex.goTo (ops.getTotalRowCount recordSet) (target recordSet) (ops.currentRow recordSet)

/-- The documented behaviour of the four single steps. -/
structure Lawful : Prop where
  moveFirst : ops.GoesTo ops.moveFirst fun _ => 0
  moveLast : ops.GoesTo ops.moveLast fun recordSet => ops.getTotalRowCount recordSet - 1
  moveNext : ops.GoesTo ops.moveNext fun recordSet => ops.currentRow recordSet + 1
  movePrevious : ops.GoesTo ops.movePrevious fun recordSet => ops.currentRow recordSet - 1

end RecordSet

/-! ## The cursor -/

/-- A cursor over a result. -/
structure SqliteCursor (ρ : Type) where
  /-- `none` when the cursor is closed -/
  recordSet : Option ρ
  currentRow : ℕ

/-- Code that uses a cursor. -/
abbrev CursorExec (ρ α : Type) := Exec SqlException (SqliteCursor ρ) α

namespace SqliteCursor

variable {ρ : Type} (ops : RecordSet ρ)

/-- A new cursor stands on the first row. -/
def construct (recordSet : ρ) : SqliteCursor ρ where
  recordSet := some recordSet
  currentRow := 0

/-- The record set of an open cursor. -/
def throwExceptionIfIllegalState : CursorExec ρ ρ := do
  match (← getState).recordSet with
  | some recordSet => return recordSet
  | none => throw (.illegalState "Sqlite Cursor is already closed ")

/-- One operation of the record set, and the new row number if it went. -/
def moveRecordSet (op : ρ → Bool × ρ) (currentRow : ρ → ℕ → ℕ) : CursorExec ρ Bool := do
  let recordSet ← throwExceptionIfIllegalState
  let (result, moved) := op recordSet
  modifyState fun cursor => {
    recordSet := some moved
    currentRow := if result then currentRow moved cursor.currentRow else cursor.currentRow }
  return result

/-- To the first row. -/
def moveToFirst : CursorExec ρ Bool := moveRecordSet ops.moveFirst fun _ _ => 0

/-- To the last row. -/
def moveToLast : CursorExec ρ Bool :=
  moveRecordSet ops.moveLast fun moved _ => ops.getTotalRowCount moved - 1

/-- To the row behind the current one. -/
def moveToNext : CursorExec ρ Bool := moveRecordSet ops.moveNext fun _ row => row + 1

/-- To the row in front of the current one. -/
def moveToPrevious : CursorExec ρ Bool := moveRecordSet ops.movePrevious fun _ row => row - 1

/-- The loop of `moveToPosition`, with the steps left. -/
def nextLoop : ℕ → CursorExec ρ Bool
  | 0 => return true
  | n + 1 => do
    if ← moveToNext ops then nextLoop n else return false

/-- To a row given by its number. -/
def moveToPosition (position : UInt32) : CursorExec ρ Bool := do
  let recordSet ← throwExceptionIfIllegalState
  if ops.getTotalRowCount recordSet ≤ position.toNat then
    return false
  if (← getState).currentRow = position.toNat then
    return true
  if !(← moveToFirst ops) then
    return false
  nextLoop ops position.toNat

/-- The row number is cast to an `int`, and so is the sum. -/
def move (offset : Int32) : CursorExec ρ Bool := do
  let position := Int32.ofNat (← getState).currentRow + offset
  if position < 0 then
    return false
  moveToPosition ops position.toUInt32

/-- The method that a move names. -/
def perform : Move → CursorExec ρ Bool
  | .move offset => move ops offset
  | .moveToFirst => moveToFirst ops
  | .moveToLast => moveToLast ops
  | .moveToNext => moveToNext ops
  | .moveToPrevious => moveToPrevious ops
  | .moveToPosition position => moveToPosition ops position

/-- One move after another, with what they return. -/
def performAll : List Move → CursorExec ρ (List Bool)
  | [] => return []
  | m :: moves => do
    let ret ← perform ops m
    let rets ← performAll moves
    return ret :: rets

/-- Both row numbers of an open cursor are the row of the index. -/
structure At (rowCount row : ℕ) (cursor : SqliteCursor ρ) : Prop where
  open_at : ∃ recordSet, cursor.recordSet = some recordSet ∧
    ops.getTotalRowCount recordSet = rowCount ∧ ops.currentRow recordSet = row
  currentRow_eq : cursor.currentRow = row
  row_lt : row = 0 ∨ row < rowCount

/-- What a move returns, and where it leaves the cursor. -/
def Reaches (rowCount : ℕ) (result : Bool × ℕ) (ret : Bool) (cursor : SqliteCursor ρ) : Prop :=
  ret = result.1 ∧ At ops rowCount result.2 cursor

variable {ops} {rowCount row : ℕ} {cursor : SqliteCursor ρ}

/-- A single step of the record set is a step of the index. -/
theorem wp_moveRecordSet {op : ρ → Bool × ρ} {target : ρ → ℤ} {t : ℤ} {currentRow : ρ → ℕ → ℕ}
    (hop : ops.GoesTo op target) (h : At ops rowCount row cursor)
    (htarget : ∀ recordSet, ops.getTotalRowCount recordSet = rowCount →
      ops.currentRow recordSet = row → target recordSet = t)
    (hrow : ∀ moved, ops.getTotalRowCount moved = rowCount → 0 ≤ t ∧ t < rowCount →
      currentRow moved row = t.toNat) :
    wp (moveRecordSet op currentRow) (Reaches ops rowCount (RowIndex.goTo rowCount t row))
      (fun _ _ => False) cursor := by
  obtain ⟨recordSet, hopen, hcount, hcurrent⟩ := h.open_at
  obtain ⟨hcount', hgo⟩ := hop recordSet
  rw [htarget recordSet hcount hcurrent, hcount, hcurrent] at hgo
  have hresult : (op recordSet).1 = (RowIndex.goTo rowCount t row).1 := congrArg Prod.fst hgo
  have hmoved : ops.currentRow (op recordSet).2 = (RowIndex.goTo rowCount t row).2 :=
    congrArg Prod.snd hgo
  unfold moveRecordSet throwExceptionIfIllegalState
  rw [wp_bind, wp_bind, wp_getState, hopen]
  refine ⟨hresult, ⟨_, rfl, hcount'.trans hcount, hmoved⟩, ?_, RowIndex.goTo_row h.row_lt⟩
  show (if (op recordSet).1 then currentRow (op recordSet).2 cursor.currentRow
    else cursor.currentRow) = _
  rw [hresult, h.currentRow_eq]
  by_cases ht : 0 ≤ t ∧ t < rowCount
  · rw [RowIndex.goTo_pos ht, if_pos rfl]
    exact hrow _ (hcount'.trans hcount) ht
  · rw [RowIndex.goTo_neg ht]
    rfl

/-- `moveToFirst` reaches row `0`. -/
theorem wp_moveToFirst (hlawful : ops.Lawful) (h : At ops rowCount row cursor) :
    wp (moveToFirst ops) (Reaches ops rowCount (RowIndex.goTo rowCount 0 row))
      (fun _ _ => False) cursor :=
  wp_moveRecordSet hlawful.moveFirst h (fun _ _ _ => rfl) fun _ _ _ => rfl

/-- `moveToLast` reaches the last row. -/
theorem wp_moveToLast (hlawful : ops.Lawful) (h : At ops rowCount row cursor) :
    wp (moveToLast ops) (Reaches ops rowCount (RowIndex.goTo rowCount (rowCount - 1) row))
      (fun _ _ => False) cursor := by
  refine wp_moveRecordSet hlawful.moveLast h (fun _ hcount _ => by rw [hcount])
    fun moved hcount ht => ?_
  rw [hcount]
  omega

/-- `moveToNext` reaches the row behind the current one. -/
theorem wp_moveToNext (hlawful : ops.Lawful) (h : At ops rowCount row cursor) :
    wp (moveToNext ops) (Reaches ops rowCount (RowIndex.goTo rowCount (row + 1) row))
      (fun _ _ => False) cursor :=
  wp_moveRecordSet hlawful.moveNext h (fun _ _ hrow => by rw [hrow]) fun _ _ _ => by omega

/-- `moveToPrevious` reaches the row in front of the current one. -/
theorem wp_moveToPrevious (hlawful : ops.Lawful) (h : At ops rowCount row cursor) :
    wp (moveToPrevious ops) (Reaches ops rowCount (RowIndex.goTo rowCount (row - 1) row))
      (fun _ _ => False) cursor :=
  wp_moveRecordSet hlawful.movePrevious h (fun _ _ hrow => by rw [hrow]) fun _ _ _ => by omega

/-- The loop goes on to the row that many steps ahead. -/
theorem wp_nextLoop (hlawful : ops.Lawful) (n : ℕ) (h : At ops rowCount row cursor)
    (hlt : row + n < rowCount) :
    wp (nextLoop ops n) (Reaches ops rowCount (true, row + n)) (fun _ _ => False) cursor := by
  induction n generalizing row cursor with
  | zero => exact ⟨rfl, h⟩
  | succ n ih =>
    rw [nextLoop, wp_bind]
    refine wp_mono (wp_moveToNext hlawful h) (fun ret next hnext => ?_) fun _ _ he => he
    rw [RowIndex.goTo_pos (by omega)] at hnext
    obtain ⟨rfl, hat⟩ := hnext
    have hrow : ((row : ℤ) + 1).toNat = row + 1 := by omega
    have hlast : row + (n + 1) = row + 1 + n := by omega
    rw [hrow] at hat
    rw [if_pos rfl, hlast]
    exact ih hat (by omega)

/-- `moveToPosition` reaches the row of that number. -/
theorem wp_moveToPosition (hlawful : ops.Lawful) (h : At ops rowCount row cursor)
    (position : UInt32) :
    wp (moveToPosition ops position)
      (Reaches ops rowCount (RowIndex.goTo rowCount position.toNat row)) (fun _ _ => False)
      cursor := by
  obtain ⟨recordSet, hopen, hcount, hcurrent⟩ := h.open_at
  unfold moveToPosition throwExceptionIfIllegalState
  rw [wp_bind, wp_bind, wp_getState, hopen]
  show wp (if ops.getTotalRowCount recordSet ≤ position.toNat then _ else _) _ _ _
  rw [hcount]
  by_cases hle : rowCount ≤ position.toNat
  · rw [if_pos hle, RowIndex.goTo_neg (by omega)]
    exact ⟨rfl, h⟩
  rw [if_neg hle, RowIndex.goTo_pos (by omega), Int.toNat_natCast, wp_bind, wp_getState,
    h.currentRow_eq]
  by_cases hrow : row = position.toNat
  · rw [if_pos hrow, ← hrow]
    exact ⟨rfl, h⟩
  rw [if_neg hrow, wp_bind]
  refine wp_mono (wp_moveToFirst hlawful h) (fun ret first hfirst => ?_) fun _ _ he => he
  rw [RowIndex.goTo_pos (by omega)] at hfirst
  obtain ⟨rfl, hat⟩ := hfirst
  have hloop := wp_nextLoop hlawful position.toNat hat (by omega)
  rw [Int.toNat_zero, Nat.zero_add] at hloop
  exact hloop

/-- A row number of 31 bits and an offset have no sum that is taken for another row. -/
theorem position_toInt {row : ℕ} (hrow : row < 2 ^ 31) (offset : Int32) :
    (Int32.ofNat row + offset).toInt =
      if row + offset.toInt < 2 ^ 31 then row + offset.toInt
      else row + offset.toInt - 2 ^ 32 := by
  have hlt := offset.toInt_lt
  have hge := offset.le_toInt
  rw [Int32.toInt_add, Int32.toInt_ofNat_of_lt hrow]
  by_cases h : row + offset.toInt < 2 ^ 31
  · rw [if_pos h]
    exact Int.bmod_eq_of_le (by omega) (by omega)
  · rw [if_neg h, ← Int.sub_bmod_right]
    exact Int.bmod_eq_of_le (by omega) (by omega)

/-- `move` reaches its row as long as row numbers fit into an `int`. -/
theorem wp_move (hlawful : ops.Lawful) (h : At ops rowCount row cursor) (hrows : rowCount ≤ 2 ^ 31)
    (offset : Int32) :
    wp (move ops offset) (Reaches ops rowCount (RowIndex.goTo rowCount (row + offset.toInt) row))
      (fun _ _ => False) cursor := by
  -- the row number fits into an `int`
  have hrow : row < 2 ^ 31 := by
    rcases h.row_lt with hzero | hlt
    · omega
    · omega
  have hposition := position_toInt hrow offset
  unfold move
  rw [wp_bind, wp_getState, h.currentRow_eq]
  have hlt := offset.toInt_lt
  by_cases hneg : Int32.ofNat row + offset < 0
  · rw [if_pos hneg, RowIndex.goTo_neg ?_]
    · exact ⟨rfl, h⟩
    -- below the first row, or an overflow, which comes after the last row
    rw [Int32.lt_iff_toInt_lt, hposition, Int32.toInt_zero] at hneg
    by_cases hsum : row + offset.toInt < 2 ^ 31
    · rw [if_pos hsum] at hneg
      omega
    · omega
  · rw [if_neg hneg]
    have hnonneg : 0 ≤ Int32.ofNat row + offset := Int32.not_lt.mp hneg
    rw [Int32.lt_iff_toInt_lt, hposition, Int32.toInt_zero] at hneg
    -- the sum has not gone over the largest `int`
    have hsum : row + offset.toInt < 2 ^ 31 := by
      by_contra hover
      rw [if_neg hover] at hneg
      omega
    have hcast : ((Int32.ofNat row + offset).toUInt32.toNat : ℤ) = row + offset.toInt := by
      rw [Int32.toNat_toUInt32_of_le hnonneg, Int32.cast_toNatClampNeg _ hnonneg, hposition,
        if_pos hsum]
    rw [← hcast]
    exact wp_moveToPosition hlawful h _

/-- One move of the cursor is one move of the index. -/
theorem wp_perform (hlawful : ops.Lawful) (hrows : rowCount ≤ 2 ^ 31)
    (h : At ops rowCount row cursor) (m : Move) :
    wp (perform ops m) (Reaches ops rowCount (RowIndex.step rowCount row m)) (fun _ _ => False)
      cursor := by
  cases m with
  | move offset => exact wp_move hlawful h hrows offset
  | moveToFirst => exact wp_moveToFirst hlawful h
  | moveToLast => exact wp_moveToLast hlawful h
  | moveToNext => exact wp_moveToNext hlawful h
  | moveToPrevious => exact wp_moveToPrevious hlawful h
  | moveToPosition position => exact wp_moveToPosition hlawful h position

/-- A sequence of moves is the same sequence of moves of the index. -/
theorem wp_performAll (hlawful : ops.Lawful) (hrows : rowCount ≤ 2 ^ 31) (moves : List Move)
    (h : At ops rowCount row cursor) :
    wp (performAll ops moves)
      (fun rets last => rets = (RowIndex.run rowCount row moves).1 ∧
        At ops rowCount (RowIndex.run rowCount row moves).2 last) (fun _ _ => False) cursor := by
  induction moves generalizing row cursor with
  | nil => exact ⟨rfl, h⟩
  | cons m moves ih =>
    rw [performAll, wp_bind]
    refine wp_mono (wp_perform hlawful hrows h m) (fun ret next hnext => ?_) fun _ _ he => he
    obtain ⟨rfl, hat⟩ := hnext
    rw [wp_bind]
    refine wp_mono (ih hat) (fun rets last hlast => ?_) fun _ _ he => he
    exact ⟨congrArg _ hlast.1, hlast.2⟩

/-! ## Which results a cursor can move over -/

/-- A new cursor behaves as the index, over every sequence of moves. -/
def RefinesIndex (ops : RecordSet ρ) (recordSet : ρ) : Prop :=
  ∀ moves, ∃ cursor, exec (performAll ops moves) (construct recordSet) =
    (.ok (RowIndex.run (ops.getTotalRowCount recordSet) 0 moves).1, cursor) ∧
      At ops (ops.getTotalRowCount recordSet)
        (RowIndex.run (ops.getTotalRowCount recordSet) 0 moves).2 cursor

/-- A new cursor and a record set that has not been moved stand on the same row. -/
theorem at_construct {recordSet : ρ} (hfirst : ops.currentRow recordSet = 0) :
    At ops (ops.getTotalRowCount recordSet) 0 (construct recordSet) where
  open_at := ⟨recordSet, rfl, rfl, hfirst⟩
  currentRow_eq := rfl
  row_lt := .inl rfl

/-- The last row that an `int` can hold, and one more. -/
def stepOverInt : List Move := [.moveToPosition (2 ^ 31 - 1), .move 1]

/-- The sum of the row number and the offset overflows. -/
theorem wp_stepOverInt (hlawful : ops.Lawful) (h : At ops rowCount 0 cursor)
    (hrows : 2 ^ 31 < rowCount) :
    wp (performAll ops stepOverInt) (fun rets _ => rets = [true, false]) (fun _ _ => False)
      cursor := by
  rw [stepOverInt, performAll, wp_bind]
  refine wp_mono (wp_moveToPosition hlawful h (2 ^ 31 - 1)) (fun ret last hlast => ?_)
    fun _ _ he => he
  have hposition : ((2 ^ 31 - 1 : UInt32).toNat : ℤ) = 2 ^ 31 - 1 := by decide
  rw [hposition, RowIndex.goTo_pos (by omega)] at hlast
  obtain ⟨rfl, hat⟩ := hlast
  have hrow : last.currentRow = 2 ^ 31 - 1 := hat.currentRow_eq
  have hnegative : Int32.ofNat (2 ^ 31 - 1) + 1 < 0 := by decide
  show wp (performAll ops [.move 1] >>= _) _ _ _
  rw [wp_bind, performAll, wp_bind]
  show wp (move ops 1) _ _ last
  unfold move
  rw [wp_bind, wp_getState, hrow, if_pos hnegative]
  rfl

theorem run_stepOverInt (hrows : 2 ^ 31 < rowCount) :
    (RowIndex.run rowCount 0 stepOverInt).1 = [true, true] := by
  have hposition : ((2 ^ 31 - 1 : UInt32).toNat : ℤ) = 2 ^ 31 - 1 := by decide
  have hone : (1 : Int32).toInt = 1 := by decide
  have hfirst : RowIndex.step rowCount 0 (.moveToPosition (2 ^ 31 - 1)) = (true, 2 ^ 31 - 1) := by
    rw [RowIndex.step, RowIndex.target, hposition, RowIndex.goTo_pos (by omega)]
    rfl
  have hsecond : RowIndex.step rowCount (2 ^ 31 - 1) (.move 1) = (true, 2 ^ 31) := by
    rw [RowIndex.step, RowIndex.target, hone, RowIndex.goTo_pos (by omega)]
    rfl
  simp only [stepOverInt, RowIndex.run, hfirst, hsecond]

/-- With more than `2 ^ 31` rows there is a move that the cursor refuses. -/
theorem not_refinesIndex (hlawful : ops.Lawful) {recordSet : ρ}
    (hfirst : ops.currentRow recordSet = 0) (hrows : 2 ^ 31 < ops.getTotalRowCount recordSet) :
    ¬RefinesIndex ops recordSet := by
  intro hrefines
  obtain ⟨cursor, hrun, -⟩ := hrefines stepOverInt
  have hrets := wp_ok (wp_stepOverInt hlawful (at_construct hfirst) hrows) hrun
  rw [run_stepOverInt hrows] at hrets
  cases hrets

/-- **A cursor is an index**, over every sequence of moves, exactly when its row numbers fit into an
`int`. -/
theorem refinesIndex_iff (hlawful : ops.Lawful) {recordSet : ρ}
    (hfirst : ops.currentRow recordSet = 0) :
    RefinesIndex ops recordSet ↔ ops.getTotalRowCount recordSet ≤ 2 ^ 31 := by
  have hat := at_construct hfirst
  constructor
  · intro hrefines
    by_contra hrows
    exact not_refinesIndex hlawful hfirst (Nat.lt_of_not_le hrows) hrefines
  · intro hrows moves
    have hwp := wp_performAll hlawful hrows moves hat
    rcases hrun : exec (performAll ops moves) (construct recordSet) with ⟨r, cursor⟩
    cases r with
    | error e => exact (wp_error hwp hrun).elim
    | ok rets =>
      obtain ⟨rfl, hlast⟩ := wp_ok hwp hrun
      exact ⟨cursor, rfl, hlast⟩

/-- A record set of which only the rows' numbers are kept: how many there are, and the current
one. -/
def plainRecordSet : RecordSet (ℕ × ℕ) where
  getTotalRowCount r := r.1
  currentRow r := r.2
  moveFirst r := let (ret, row) := RowIndex.goTo r.1 0 r.2; (ret, r.1, row)
  moveLast r := let (ret, row) := RowIndex.goTo r.1 (r.1 - 1) r.2; (ret, r.1, row)
  moveNext r := let (ret, row) := RowIndex.goTo r.1 (r.2 + 1) r.2; (ret, r.1, row)
  movePrevious r := let (ret, row) := RowIndex.goTo r.1 (r.2 - 1) r.2; (ret, r.1, row)

/-- The record set that is a row count and a row behaves as documented. -/
theorem plainRecordSet_lawful : plainRecordSet.Lawful where
  moveFirst _ := ⟨rfl, rfl⟩
  moveLast _ := ⟨rfl, rfl⟩
  moveNext _ := ⟨rfl, rfl⟩
  movePrevious _ := ⟨rfl, rfl⟩

/-- A result with three rows. -/
theorem refinesIndex_three : RefinesIndex plainRecordSet (3, 0) :=
  (refinesIndex_iff plainRecordSet_lawful rfl).mpr (by decide)

/-- A result with one row more than an `int` has numbers: a move to its last row fails. -/
theorem not_refinesIndex_overInt : plainRecordSet.Lawful ∧
    plainRecordSet.currentRow (2 ^ 31 + 1, 0) = 0 ∧
      ¬RefinesIndex plainRecordSet (2 ^ 31 + 1, 0) :=
  ⟨plainRecordSet_lawful, rfl, not_refinesIndex plainRecordSet_lawful rfl (Nat.lt_succ_self _)⟩

end SqliteCursor

end EasyHttp.Db
