import Mathlib.Data.List.Basic

/-!
# `SqliteQueryBuilder`: the statements the database layer writes

`SqliteQueryBuilder` puts the keys and values of a `ContentValues` into the text of an
`INSERT` or `UPDATE` statement. A `ContentValues` keeps its entries in a
`Poco::Util::MapConfiguration`, of which only `keys` and `getString` are read here.
-/

namespace EasyHttp.Db

/-- The exceptions of the database layer, each with its message. -/
inductive SqlException where
  | execution (message : String)
  | illegalArgument (message : String)
  | illegalState (message : String)
  | databaseCorrupt (message : String)
deriving DecidableEq

/-- What SQLite does about a row that exists. -/
inductive SqliteConflictAlgorithm where
  | none
  | rollback
  | abort
  | fail
  | ignore
  | replace
deriving DecidableEq

/-- `ConflictAlgorithmStrings`. -/
def SqliteConflictAlgorithm.string : SqliteConflictAlgorithm → String
  | .none => ""
  | .rollback => "OR ROLLBACK "
  | .abort => "OR ABORT "
  | .fail => "OR FAIL "
  | .ignore => "OR IGNORE "
  | .replace => "OR REPLACE "

/-! ## `ContentValues` -/

/-- What is read of a `Poco::Util::MapConfiguration`. `getString` is `none` where Poco
throws. -/
structure MapConfiguration where
  keys : List String
  getString : String → Option String

/-- The values of a row, kept in a configuration. -/
structure ContentValues where
  conf : MapConfiguration

namespace ContentValues

/-- The keys of the configuration. -/
def getKeys (values : ContentValues) : List String := values.conf.keys

/-- The value of a key; the configuration expands it. -/
def getStringValue (values : ContentValues) (key : String) : Except SqlException String :=
  match values.conf.getString key with
  | some value => .ok value
  | none => .error (.illegalArgument ("getStringValue invalid key : " ++ key))

end ContentValues

/-! ## Building statements -/

namespace SqliteQueryBuilder

/-- Between two entries of a list: nothing before the first, a comma before the others. -/
def separator : ℕ → String
  | 0 => ""
  | _ + 1 => ", "

/-- The loop of `buildInsertString`: `namesString` and `valuesString`. -/
def insertLoop (values : ContentValues) :
    ℕ → List String → String → String → Except SqlException (String × String)
  | _, [], namesString, valuesString => .ok (namesString, valuesString)
  | i, key :: keys, namesString, valuesString => do
    let contentValueString ← values.getStringValue key
    insertLoop values (i + 1) keys (namesString ++ separator i ++ key)
      (valuesString ++ separator i ++ "'" ++ contentValueString ++ "'")

/-- The statement that inserts a row. -/
def buildInsertString (table : String) (values : ContentValues)
    (conflictAlgorithm : SqliteConflictAlgorithm) : Except SqlException String := do
  let queryString := "INSERT " ++ conflictAlgorithm.string ++ "INTO " ++ table
  let contentValueKeys := values.getKeys
  if contentValueKeys.length > 0 then
    let (namesString, valuesString) ← insertLoop values 0 contentValueKeys "" ""
    return queryString ++ " (" ++ namesString ++ ") " ++ "VALUES " ++ "(" ++ valuesString ++ ")"
  else
    return queryString ++ " () VALUES (NULL)"

/-- The loop of `buildUpdateString`, appending to `queryString`. -/
def updateLoop (values : ContentValues) :
    ℕ → List String → String → Except SqlException String
  | _, [], queryString => .ok queryString
  | i, key :: keys, queryString => do
    let contentValueString ← values.getStringValue key
    updateLoop values (i + 1) keys
      (queryString ++ separator i ++ key ++ "='" ++ contentValueString ++ "'")

/-- The end of a statement: `WHERE` and the clause, unless it is `NULL` or empty. -/
def whereString : Option String → String
  | none => ""
  | some whereClause => if whereClause.isEmpty then "" else " WHERE " ++ whereClause

/-- The statement that changes rows. -/
def buildUpdateString (table : String) (values : ContentValues) (whereClause : Option String)
    (conflictAlgorithm : SqliteConflictAlgorithm) : Except SqlException String := do
  let contentValueKeys := values.getKeys
  if contentValueKeys.length ≤ 0 then
    throw (.illegalArgument "ContentValues has no value")
  let queryString ← updateLoop values 0 contentValueKeys
    ("UPDATE " ++ conflictAlgorithm.string ++ table ++ " SET ")
  return queryString ++ whereString whereClause

end SqliteQueryBuilder

end EasyHttp.Db
