import EasyHttp.Cache.HttpCacheDatabase
import EasyHttp.Cache.HttpLruCacheStrategy

/-!
# `HttpFileCache`: entries with a row, a body file and a place in the list

Every function holds the mutex of the cache from its first line to its last, so a call is one
step. The functions that open a body answer with the stream (`none` is false); `put` for a
`ByteArrayBuffer` always answers false and is left out.
-/

namespace EasyHttp

open Exec

/-- What `Poco::FileInputStream` reads, and the entry that counts its reader. -/
structure CacheStream where
  content : String
  serial : ℕ
deriving DecidableEq

/-- The list of entries, the disk under it, and the object's own state. -/
structure HttpFileCache where
  cacheInitialized : Bool
  cacheRootDir : String
  lruCacheStrategy : LruCacheByDataSizeStrategy HttpCacheInfo
  disk : Disk
  /-- the next `HttpCacheInfo.serial` -/
  nextSerial : ℕ

/-- Code of the cache. -/
abbrev CacheExec (α : Type) := Exec CacheException HttpFileCache α

namespace HttpFileCache

/-- A cache that has not read its directory yet. -/
def construct (cacheRootDir : String) (maxSize : UInt64) (disk : Disk) : HttpFileCache where
  cacheInitialized := false
  cacheRootDir := cacheRootDir
  lruCacheStrategy := LruCacheByDataSizeStrategy.construct maxSize
  disk := disk
  nextSerial := 0

/-- A call of the disk. -/
def onDisk {α : Type} (x : DiskExec α) : CacheExec α :=
  zoom (·.disk) (fun s disk => { s with disk := disk }) x

/-- A call of the list. -/
def onLru {α : Type} (x : LruExec CacheException Disk HttpCacheInfo α) : CacheExec α :=
  zoom (fun s => (s.lruCacheStrategy, s.disk))
    (fun s t => { s with lruCacheStrategy := t.1, disk := t.2 }) x

/-- `HttpUtil::makeCachedResponseBodyFilename`. -/
def makeCachedFilename (cacheRootDir key : String) : String := cacheRootDir ++ "/" ++ key ++ ".data"

/-! ## The cache as the listener of its list -/

/-- A corrupted database is for the caller to deal with; any other failure refuses the removal. -/
def onRemove (cacheRootDir key : String) : DiskExec Bool := do
  let deleted ← Exec.tryCatch (HttpCacheDatabase.deleteMetadata key) fun
    | .sql (.databaseCorrupt message) => throw (.sql (.databaseCorrupt message))
    | .sql _ => return false
    | e => throw e
  if !deleted then
    return false
  FileUtil.removeFileIfPresent (makeCachedFilename cacheRootDir key)

/-- The callbacks of the list. -/
def listener (cacheRootDir : String) : LruListener CacheException Disk HttpCacheInfo where
  onAdd := fun _ _ => return true
  onUpdate := fun _ _ => return true
  onRemove := onRemove cacheRootDir
  onGet := fun _ _ => return true

/-- A call of the list, which calls back. -/
def lru {α : Type} (x : LruListener CacheException Disk HttpCacheInfo →
    LruExec CacheException Disk HttpCacheInfo α) : CacheExec α := do
  onLru (x (listener (← getState).cacheRootDir))

/-! ## Start and reset -/

/-- `new HttpCacheInfo(key, dataSize)`. -/
def newHttpCacheInfo (key : String) (dataSize : UInt64) : CacheExec HttpCacheInfo := do
  let s ← getState
  modifyState fun s => { s with nextSerial := s.nextSerial + 1 }
  return { key := key, dataSize := dataSize, serial := s.nextSerial }

/-- What `add` answers is not read. -/
def onEnumerate (key : String) (responseBodySize : UInt64) : CacheExec Bool := do
  if ← lru (HttpLruCacheStrategy.makeSpace · responseBodySize) then
    let info ← newHttpCacheInfo key responseBodySize
    let _ ← lru (HttpLruCacheStrategy.add · key info)
    return true
  else
    return false

/-- `HttpCacheDatabase::enumerate`: the rows as the query found them, each handed to the cache;
what that answers is not read. -/
def enumerate : CacheExec Unit := do
  let params ← onDisk HttpCacheDatabase.queryAll
  forEach (fun param => do
    onDisk Disk.databaseCall
    let _ ← onEnumerate param.1 param.2) params

/-- When the directory cannot be created the cache goes on uninitialized. -/
def initializeCache : CacheExec Unit := do
  if !(← getState).cacheInitialized then
    if ← onDisk (FileUtil.createDirsIfAbsent (← getState).cacheRootDir) then
      enumerate
      modifyState fun s => { s with cacheInitialized := true }

/-- The database file goes; whether that worked is not looked at. -/
def deleteCacheFile : CacheExec Unit := do
  let _ ← onDisk HttpCacheDatabase.deleteDatabaseFile

/-- The files in a directory. -/
def isInDirectory (dir path : String) : Bool :=
  match path.toList.dropPrefix? (dir.toList ++ ['/']) with
  | some name => !name.contains '/'
  | none => false

/-- `Poco::File::list`. -/
def listDirectory (dir : String) : DiskExec (List String) := do
  Disk.fileCall dir
  return ((← getState).files.entries.map Prod.fst).filter (isInDirectory dir)

/-- The database file is in the directory too, and its removal is tried once more. -/
def deleteCorruptedCacheFile : CacheExec Unit := do
  modifyState fun s => { s with cacheInitialized := false }
  onLru LruCacheByDataSizeStrategy.reset
  deleteCacheFile
  let fileLists ← onDisk (listDirectory (← getState).cacheRootDir)
  deleteCacheFile
  forEach (fun path => do let _ ← onDisk (FileUtil.removeFileIfPresent path)) fileLists

/-- The `catch` clauses that most functions end with: after a corruption everything is deleted. -/
def catchSql {α : Type} (corrupted failed : CacheExec α) : CacheException → CacheExec α
  | .sql (.databaseCorrupt _) => do
    deleteCorruptedCacheFile
    corrupted
  | .sql _ => failed
  | e => throw e

/-! ## Readers -/

variable (json : PocoJson)

/-- `none` is NULL. -/
def createStreamFromCache (key : String) : CacheExec (Option String) := do
  let filePath := makeCachedFilename (← getState).cacheRootDir key
  onDisk (Exec.tryCatch (do
    if !(← File.exist filePath) then
      return none
    return some (← File.open_ filePath))
    (catchPoco (return none)))

/-- The end of `getData` and `get`: the reader is counted. -/
def addReader (key : String) (info : HttpCacheInfo) (content : String) :
    CacheExec (Option CacheStream) := do
  let _ ← lru (HttpLruCacheStrategy.update · key info.addDataRef)
  return some { content := content, serial := info.serial }

/-- The metadata of an entry, whose time of last access is brought up to date; that there was no
row to update is ignored. -/
def readMetadata (key : String) : CacheExec (Option HttpCacheMetadata) := do
  match ← onDisk (HttpCacheDatabase.getMetadata json key) with
  | none => return none
  | some httpCacheMetadata =>
    let _ ← onDisk (HttpCacheDatabase.updateLastAccessedSec key)
    return some httpCacheMetadata

/-- What is stored of a response without its body. -/
def getMetadata (key : String) : CacheExec (Option HttpCacheMetadata) :=
  Exec.tryCatch (do
    initializeCache
    match ← lru (HttpLruCacheStrategy.get · key) with
    | none => return none
    | some info =>
      if info.reservedRemove then
        return none
      readMetadata json key)
    (catchSql (return none) (return none))

/-- A stream of the body, counted as a reader. -/
def getData (key : String) : CacheExec (Option CacheStream) :=
  Exec.tryCatch (do
    initializeCache
    match ← lru (HttpLruCacheStrategy.get · key) with
    | none => return none
    | some info =>
      if info.reservedRemove then
        return none
      match ← createStreamFromCache key with
      | none => return none
      | some content => addReader key info content)
    (catchSql (return none) (return none))

/-- Both at once. -/
def get (key : String) : CacheExec (Option (HttpCacheMetadata × CacheStream)) :=
  Exec.tryCatch (do
    initializeCache
    match ← lru (HttpLruCacheStrategy.get · key) with
    | none => return none
    | some info =>
      if info.reservedRemove then
        return none
      match ← readMetadata json key with
      | none => return none
      | some httpCacheMetadata =>
        match ← createStreamFromCache key with
        | none => return none
        | some content =>
          let stream ← addReader key info content
          return stream.map fun stream => (httpCacheMetadata, stream))
    (catchSql (return none) (return none))

/-- No cache is initialized for a release. -/
def releaseData (key : String) : CacheExec Unit := do
  match ← lru (HttpLruCacheStrategy.get · key) with
  | none => return ()
  | some info =>
    if info.dataRefCount = 0 then
      return ()
    Exec.tryCatch (do let _ ← lru (HttpLruCacheStrategy.update · key info.releaseDataRef))
      (catchSql (return ()) (return ()))

/-! ## Writers -/

/-- Whether an entry may be written: it is not reserved for removal and has no reader. -/
def isWritable (info : HttpCacheInfo) : Bool := !info.reservedRemove && info.dataRefCount = 0

/-- Replaces what is stored of a response, and leaves the body. -/
def putMetadata (key : String) (httpCacheMetadata : HttpCacheMetadata) : CacheExec Bool :=
  Exec.tryCatch (do
    initializeCache
    match ← lru (HttpLruCacheStrategy.get · key) with
    | some info =>
      if !isWritable info then
        return false
      onDisk (HttpCacheDatabase.updateMetadata json httpCacheMetadata)
      return true
    | none => return false)
    (catchSql (return false) (return false))

/-- The removal under the lock. -/
def removeInternal (key : String) : CacheExec Bool := lru (HttpLruCacheStrategy.remove · key)

/-- The first `try` of `put`; true lets `put` go on, as a corrupted database does. -/
def makeRoom (key : String) (responseBodySize : UInt64) : CacheExec Bool :=
  Exec.tryCatch (do
    initializeCache
    match ← lru (HttpLruCacheStrategy.get · key) with
    | some info =>
      if !isWritable info then
        return false
      let _ ← removeInternal key
      lru (HttpLruCacheStrategy.makeSpace · responseBodySize)
    | none => lru (HttpLruCacheStrategy.makeSpace · responseBodySize))
    (catchSql (return true) (return false))

/-- The second `try` of `put`; a failure takes the new body file away again. -/
def storeMetadata (httpCacheMetadata : HttpCacheMetadata) (cacheFile : String) : CacheExec Bool :=
  let removeCacheFile : CacheExec Bool := do
    let _ ← onDisk (FileUtil.removeFileIfPresent cacheFile)
    return false
  Exec.tryCatch (do
    initializeCache
    onDisk (HttpCacheDatabase.updateMetadata json httpCacheMetadata)
    return true)
    (catchSql removeCacheFile removeCacheFile)

/-- What the last `update` answers is not read, and what it throws is not caught. -/
def put (key : String) (httpCacheMetadata : HttpCacheMetadata) (path : String) :
    CacheExec Bool := do
  if !(← makeRoom key httpCacheMetadata.responseBodySize) then
    return false
  let newCacheInfo ← newHttpCacheInfo key httpCacheMetadata.responseBodySize
  let cacheFile := makeCachedFilename (← getState).cacheRootDir key
  if !(← onDisk (FileUtil.moveFile path cacheFile)) then
    return false
  if !(← storeMetadata json httpCacheMetadata cacheFile) then
    return false
  let _ ← lru (HttpLruCacheStrategy.update · key newCacheInfo)
  return true

/-- The removal of an entry with its row and its file. -/
def remove (key : String) : CacheExec Bool :=
  Exec.tryCatch (do
    initializeCache
    removeInternal key)
    (catchSql (return false) (return false))

/-- The database goes when nothing is being read any more. A purge that finds the database
corrupted has deleted everything. -/
def purge (mayDeleteIfBusy : Bool) : CacheExec Bool :=
  Exec.tryCatch (do
    initializeCache
    let ret ← lru (HttpLruCacheStrategy.clear · mayDeleteIfBusy)
    if ret then
      deleteCacheFile
    return ret)
    (catchSql (return true) (return false))

end HttpFileCache

end EasyHttp
