import EasyHttp.Cache.LruCacheByDataSizeStrategy

/-!
# `HttpLruCacheStrategy`: entries that are being read stay

Each entry counts its readers. An entry with readers is not evicted, and its removal is
reserved until the last of them is done.
-/

namespace EasyHttp

/-- `serial` tells the objects that `new HttpCacheInfo(key, dataSize)` has made apart; the code
has no such number. A copy is the same entry and keeps it. -/
structure HttpCacheInfo where
  key : String
  dataSize : UInt64
  reservedRemove : Bool := false
  dataRefCount : UInt32 := 0
  serial : ℕ
deriving DecidableEq

instance : CacheInfo HttpCacheInfo := ⟨(·.key), (·.dataSize)⟩

namespace HttpCacheInfo

/-- One reader more. -/
def addDataRef (info : HttpCacheInfo) : HttpCacheInfo :=
  { info with dataRefCount := info.dataRefCount + 1 }

/-- One reader less. -/
def releaseDataRef (info : HttpCacheInfo) : HttpCacheInfo :=
  if info.dataRefCount = 0 then info else { info with dataRefCount := info.dataRefCount - 1 }

end HttpCacheInfo

namespace HttpLruCacheStrategy

open Exec

variable {ε ω : Type} (listener : LruListener ε ω HttpCacheInfo)

/-- Entries that are being read are passed over. -/
def createRemoveLruDataList (lru : LruCacheByDataSizeStrategy HttpCacheInfo)
    (removeSize : UInt64) : Option (List String) :=
  LruCacheByDataSizeStrategy.removeLruDataLoop (fun info => info.dataRefCount = 0) removeSize
    lru.lruList.values.reverse 0 []

/-- The removal of a listed entry that is being read: reserved on the object in the list, which
`update` then pushes to the top. That entry keeps its size, so `update` needs no space and calls
none of the functions given to it (`reserveRemove_eq`). -/
def reserveRemove (key : String) (it : ℕ) (info : HttpCacheInfo) :
    LruExec ε ω HttpCacheInfo Unit := do
  let reserved := { info with reservedRemove := true }
  modifyState fun s => (s.1.assign it reserved, s.2)
  let _ ← LruCacheByDataSizeStrategy.update (LruCacheByDataSizeStrategy.virtuals listener) listener
    key reserved

/-- An entry that is read is marked instead. -/
def remove (key : String) : LruExec ε ω HttpCacheInfo Bool := do
  match (← getState).1.find key with
  | some (it, info) =>
    if info.dataRefCount > 0 then
      if !info.reservedRemove then
        reserveRemove listener key it info
      return true
    else
      LruCacheByDataSizeStrategy.remove listener key
  | none => return false

/-- The virtual functions of the base class as they are overridden here. -/
def virtuals : LruCacheByDataSizeStrategy.Virtuals ε ω HttpCacheInfo :=
  ⟨createRemoveLruDataList, remove listener⟩

/-- `add` of the base class, with the functions overridden here. -/
def add (key : String) (info : HttpCacheInfo) : LruExec ε ω HttpCacheInfo Bool :=
  LruCacheByDataSizeStrategy.add (virtuals listener) listener key info

/-- The oldest entries that nobody reads leave. -/
def makeSpace (requestSize : UInt64) : LruExec ε ω HttpCacheInfo Bool :=
  LruCacheByDataSizeStrategy.makeSpace (virtuals listener) requestSize

/-- `get` of the base class. -/
def get (key : String) : LruExec ε ω HttpCacheInfo (Option HttpCacheInfo) :=
  LruCacheByDataSizeStrategy.get listener key

/-- An entry reserved for removal goes with its last reader. -/
def update (key : String) (info : HttpCacheInfo) : LruExec ε ω HttpCacheInfo Bool := do
  if ← LruCacheByDataSizeStrategy.update (virtuals listener) listener key info then
    if info.dataRefCount = 0 ∧ info.reservedRemove then
      LruCacheByDataSizeStrategy.remove listener key
    else
      return true
  else
    return false

/-- The keys to remove, and whether no entry was left out because it is being read. -/
def createRemoveList (lru : LruCacheByDataSizeStrategy HttpCacheInfo) (mayDeleteIfBusy : Bool) :
    Bool × List String :=
  let infos := lru.lruList.values
  if mayDeleteIfBusy then
    (true, infos.map (·.key))
  else
    (infos.all fun info => info.dataRefCount = 0,
      (infos.filter fun info => info.dataRefCount = 0).map (·.key))

/-- The loop of `clear`. -/
def clearKeys : List String → Bool → LruExec ε ω HttpCacheInfo Bool
  | [], ret => return ret
  | key :: keys, ret => do
    if ← LruCacheByDataSizeStrategy.remove listener key then
      clearKeys keys ret
    else
      clearKeys keys false

/-- The keys of `createRemoveList` are removed one after the other. -/
def clear (mayDeleteIfBusy : Bool) : LruExec ε ω HttpCacheInfo Bool := do
  let (ret, keys) := createRemoveList (← getState).1 mayDeleteIfBusy
  clearKeys listener keys ret

end HttpLruCacheStrategy

end EasyHttp
