import EasyHttp.Library.Exec
import EasyHttp.Library.IterList
import EasyHttp.Library.SortedMap
import Mathlib.Data.String.Basic

/-!
# `LruCacheByDataSizeStrategy`: the list of entries in order of use

The most recently used entry stands first in `lruList`; `lruListMap` finds an entry by its key.
The listener is told of every change and may refuse it; a strategy without a listener behaves
as one whose listener agrees to everything. The code runs over the strategy and the state of
its listener.

The class is generic in what it lists, and a subclass overrides some of its functions;
`Virtuals` has those that the functions here call.
-/

namespace EasyHttp

/-- What the strategy reads of the objects it lists. -/
class CacheInfo (ι : Type) where
  getKey : ι → String
  getDataSize : ι → UInt64

/-- An entry of the list. -/
structure CacheInfoWithDataSize where
  key : String
  dataSize : UInt64
deriving DecidableEq

instance : CacheInfo CacheInfoWithDataSize := ⟨(·.key), (·.dataSize)⟩

/-- The list, the map to its positions, and the sizes. -/
structure LruCacheByDataSizeStrategy (ι : Type) where
  lruList : IterList ι
  lruListMap : SortedMap String ℕ
  maxSize : UInt64
  totalSize : UInt64

/-- Code over a strategy and the state `ω` of its listener. -/
abbrev LruExec (ε ω ι α : Type) := Exec ε (LruCacheByDataSizeStrategy ι × ω) α

/-- The callbacks. -/
structure LruListener (ε ω ι : Type) where
  onAdd : String → ι → Exec ε ω Bool
  onUpdate : String → ι → Exec ε ω Bool
  onRemove : String → Exec ε ω Bool
  onGet : String → ι → Exec ε ω Bool

namespace LruCacheByDataSizeStrategy

variable {ε ω ι : Type} [CacheInfo ι]

open CacheInfo Exec

omit [CacheInfo ι] in
/-- A call of the listener. -/
def tell {α : Type} (x : Exec ε ω α) : LruExec ε ω ι α := zoom Prod.snd (fun s w => (s.1, w)) x

/-- An empty list. -/
def construct (maxSize : UInt64) : LruCacheByDataSizeStrategy ι where
  lruList := IterList.empty
  lruListMap := SortedMap.empty
  maxSize := maxSize
  totalSize := 0

/-! ## The list and its map -/

/-- `m_lruListMap.find(key)` and the element its iterator reaches. -/
def find (lru : LruCacheByDataSizeStrategy ι) (key : String) : Option (ℕ × ι) :=
  (lru.lruListMap.find? key).bind fun it => (lru.lruList.deref it).map fun info => (it, info)

/-- The entry dropped from the list, its size from the total. -/
def unlist (lru : LruCacheByDataSizeStrategy ι) (key : String) : LruCacheByDataSizeStrategy ι :=
  match lru.find key with
  | some (it, info) => { lru with
      totalSize := lru.totalSize - getDataSize info
      lruList := lru.lruList.erase it }
  | none => lru

/-- The end of `remove`. -/
def drop (lru : LruCacheByDataSizeStrategy ι) (key : String) : LruCacheByDataSizeStrategy ι :=
  { lru.unlist key with lruListMap := lru.lruListMap.erase key }

/-- The end of `addOrUpdate`: an old entry of the key leaves the list, the new one is pushed to
the top. -/
def push (lru : LruCacheByDataSizeStrategy ι) (key : String) (info : ι) :
    LruCacheByDataSizeStrategy ι :=
  { lru.unlist key with
    lruList := (lru.unlist key).lruList.pushFront info
    lruListMap := lru.lruListMap.set key (lru.unlist key).lruList.next
    totalSize := (lru.unlist key).totalSize + getDataSize info }

/-- Move to the latest position. -/
def touch (lru : LruCacheByDataSizeStrategy ι) (key : String) (it : ℕ) (info : ι) :
    LruCacheByDataSizeStrategy ι :=
  { lru with
    lruList := (lru.lruList.erase it).pushFront info
    lruListMap := lru.lruListMap.set key (lru.lruList.erase it).next }

omit [CacheInfo ι] in
/-- A listed object written over through its pointer. -/
def assign (lru : LruCacheByDataSizeStrategy ι) (it : ℕ) (info : ι) :
    LruCacheByDataSizeStrategy ι :=
  { lru with lruList := lru.lruList.assign it info }

/-- The sizes of all entries together, as they are counted. -/
def getTotalSize (lru : LruCacheByDataSizeStrategy ι) : UInt64 := lru.totalSize

/-! ## The functions a subclass overrides, and those that call them -/

/-- The virtual functions. -/
structure Virtuals (ε ω ι : Type) where
  /-- `none` where the source returns false; the keys are not read then -/
  createRemoveLruDataList : LruCacheByDataSizeStrategy ι → UInt64 → Option (List String)
  remove : String → LruExec ε ω ι Bool

/-- The `while` of `createRemoveLruDataList` from one element of the reversed list on.
`removable` is the test that `HttpLruCacheStrategy` adds. -/
def removeLruDataLoop (removable : ι → Bool) (removeSize : UInt64) :
    List ι → UInt64 → List String → Option (List String)
  | [], targetSize, keys => if targetSize < removeSize then none else some keys
  | info :: rest, targetSize, keys =>
    if targetSize < removeSize then
      if removable info then
        removeLruDataLoop removable removeSize rest (targetSize + getDataSize info)
          (getKey info :: keys)
      else
        removeLruDataLoop removable removeSize rest targetSize keys
    else some keys

section
variable (v : Virtuals ε ω ι)

/-- The loop of `makeSpace`; what `remove` answers is not read. -/
def removeKey (updatedKey key : String) : LruExec ε ω ι Unit := do
  if updatedKey = "" ∨ updatedKey ≠ key then
    let _ ← v.remove key

/-- The private `makeSpace`. -/
def makeSpaceFor (requestSize : UInt64) (updatedKey : String) : LruExec ε ω ι Bool := do
  let lru := (← getState).1
  if lru.totalSize + requestSize ≤ lru.maxSize then
    return true
  else if lru.lruList.values.isEmpty then
    return false
  else match v.createRemoveLruDataList lru (lru.totalSize + requestSize - lru.maxSize) with
  | some keys =>
    forEach (removeKey v updatedKey) keys
    return true
  | none => return false

/-- Room for an entry of no key. -/
def makeSpace (requestSize : UInt64) : LruExec ε ω ι Bool := makeSpaceFor v requestSize ""

/-- The check for free space that begins `addOrUpdate`. -/
def spaceFor (key : String) (info : ι) : LruExec ε ω ι Bool := do
  match (← getState).1.find key with
  | some (_, old) =>
    if getDataSize old < getDataSize info then
      makeSpaceFor v (getDataSize info) key
    else
      return true
  | none => makeSpace v (getDataSize info)

/-- The entry is put in if there is room. -/
def addOrUpdate (key : String) (info : ι) : LruExec ε ω ι Bool := do
  if ← spaceFor v key info then
    modifyState fun s => (s.1.push key info, s.2)
    return true
  else
    return false

variable (listener : LruListener ε ω ι)

/-- The listener may refuse the entry. -/
def add (key : String) (info : ι) : LruExec ε ω ι Bool := do
  if ← tell (listener.onAdd key info) then
    addOrUpdate v key info
  else
    return false

/-- So it may here. -/
def update (key : String) (info : ι) : LruExec ε ω ι Bool := do
  if ← tell (listener.onUpdate key info) then
    addOrUpdate v key info
  else
    return false

end

/-! ## The functions of the class itself -/

section
variable (listener : LruListener ε ω ι)

/-- The listener is told first, and may refuse. -/
def remove (key : String) : LruExec ε ω ι Bool := do
  match (← getState).1.find key with
  | some _ =>
    if ← tell (listener.onRemove key) then
      modifyState fun s => (s.1.drop key, s.2)
      return true
    else
      return false
  | none => return false

/-- `none` is NULL. The caller gets a copy of the object listed. -/
def get (key : String) : LruExec ε ω ι (Option ι) := do
  match (← getState).1.find key with
  | some (it, info) =>
    modifyState fun s => (s.1.touch key it info, s.2)
    if ← tell (listener.onGet key info) then
      return some info
    else
      return none
  | none => return none

/-- The list forgets everything, and tells nobody. -/
def reset : LruExec ε ω ι Unit := modifyState fun s => (construct s.1.maxSize, s.2)

/-- The oldest keys that make up the size, `none` where there are too few. -/
def createRemoveLruDataList (lru : LruCacheByDataSizeStrategy ι) (removeSize : UInt64) :
    Option (List String) :=
  removeLruDataLoop (fun _ => true) removeSize lru.lruList.values.reverse 0 []

/-- The virtual functions of the class itself. -/
def virtuals : Virtuals ε ω ι := ⟨createRemoveLruDataList, remove listener⟩

/-- `createRemoveList` lists every key and answers true. -/
def clear : LruExec ε ω ι Bool := do
  let keys := (← getState).1.lruList.values.map getKey
  forEach (fun key => do let _ ← remove listener key) keys
  return true

end

end LruCacheByDataSizeStrategy

end EasyHttp
