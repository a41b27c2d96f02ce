import EasyHttp.Db.SqliteQueryBuilder
import EasyHttp.Library.Exec
import EasyHttp.Library.SortedMap
import EasyHttp.Message.Request
import Mathlib.Data.String.Basic

/-!
# The files and the database of the cache, and `FileUtil`

`Disk` is what the cache finds outside: regular files by absolute path, and the rows of the
database file, which is empty when the file is not there. Any call that reaches the disk may
fail; `faults` has what befalls the calls of either kind to come.
-/

namespace EasyHttp

/-- What befalls a call: `corrupt` is what the database reports when its file is corrupted, and
a plain failure for other files. -/
inductive Fault where
  | none
  | fails
  | corrupt
deriving DecidableEq

/-- What befalls the calls to come, one after another; when a list is empty, nothing fails any
more. -/
structure Faults where
  database : List Fault := []
  file : List Fault := []
deriving DecidableEq

/-- What `HttpCacheDatabase` writes to a row besides the key and the time of creation, which the
program only logs. -/
structure Row where
  url : String
  httpMethod : HttpMethod
  statusCode : ℤ
  statusMessage : String
  responseHeaderJson : String
  responseBodySize : UInt64
  sentRequestAtEpoch : Int64
  receivedResponseAtEpoch : Int64
  lastAccessedAtEpoch : Int64
deriving DecidableEq

/-- Files and rows, with what the next calls will meet. -/
structure Disk where
  files : SortedMap String String
  /-- by `cache_key`, a unique column -/
  rows : SortedMap String Row
  /-- the clock -/
  nowAtEpoch : Int64
  faults : Faults

/-- The exceptions that pass through the cache. -/
inductive CacheException where
  | sql (e : Db.SqlException)
  | http (e : HttpException)
deriving DecidableEq

/-- Code over the disk. -/
abbrev DiskExec (α : Type) := Exec CacheException Disk α

open Exec

namespace Disk

/-- A call of `Poco::File` throws when it fails. -/
def fileCall (message : String) : DiskExec Unit := do
  let disk ← getState
  modifyState fun disk => { disk with
    faults := { disk.faults with file := disk.faults.file.tail } }
  if disk.faults.file.headD .none ≠ .none then
    throw (.http (.poco message))

/-- A call of the database throws when it fails. -/
def databaseCall : DiskExec Unit := do
  let disk ← getState
  modifyState fun disk => { disk with
    faults := { disk.faults with database := disk.faults.database.tail } }
  match disk.faults.database.headD .none with
  | .none => return ()
  | .fails => throw (.sql (.execution "database error"))
  | .corrupt => throw (.sql (.databaseCorrupt "database disk image is malformed"))

end Disk

/-! ## `Poco::File` -/

namespace File

/-- `File::exists`. -/
def exist (path : String) : DiskExec Bool := do
  Disk.fileCall path
  return ((← getState).files.find? path).isSome

/-- Every file on the disk is a regular one. -/
def isFile (path : String) : DiskExec Bool := exist path

/-- `File::remove`; a file that is not there makes it throw. -/
def remove (path : String) : DiskExec Unit := do
  Disk.fileCall path
  match (← getState).files.find? path with
  | some _ => modifyState fun disk => { disk with files := disk.files.erase path }
  | none => throw (.http (.poco path))

/-- A file at the new path is replaced. -/
def renameTo (path newPath : String) : DiskExec Unit := do
  Disk.fileCall path
  match (← getState).files.find? path with
  | some content => modifyState fun disk =>
      { disk with files := (disk.files.erase path).set newPath content }
  | none => throw (.http (.poco path))

/-- `Poco::FileInputStream`: what the file holds. -/
def open_ (path : String) : DiskExec String := do
  Disk.fileCall path
  match (← getState).files.find? path with
  | some content => return content
  | none => throw (.http (.poco path))

end File

/-- `catch (const Poco::Exception&)`. -/
def catchPoco {σ α : Type} (handler : Exec CacheException σ α) :
    CacheException → Exec CacheException σ α
  | .http (.poco _) => handler
  | e => throw e

/-! ## `FileUtil` -/

namespace FileUtil

/-- The directory is there, or is created; either fails when the file system does. -/
def createDirsIfAbsent (dir : String) : DiskExec Bool :=
  Exec.tryCatch (do
    if dir = "" then
      return false
    Disk.fileCall dir
    return true)
    (catchPoco (return false))

/-- What the file system throws is answered with false. -/
def removeFileIfPresent (path : String) : DiskExec Bool :=
  Exec.tryCatch (do
    if !(← File.exist path) then
      return true
    if !(← File.isFile path) then
      return false
    File.remove path
    return !(← File.exist path))
    (catchPoco (return false))

/-- The calls before the last `try` may throw. -/
def moveFile (sourceFile destinationFile : String) : DiskExec Bool := do
  if !(← File.exist sourceFile) then
    return false
  if !(← File.isFile sourceFile) then
    return false
  if ← File.exist destinationFile then
    if destinationFile = sourceFile then
      return true
    let _ ← removeFileIfPresent destinationFile
  Exec.tryCatch (do
    File.renameTo sourceFile destinationFile
    return true)
    (catchPoco (return false))

end FileUtil

end EasyHttp
