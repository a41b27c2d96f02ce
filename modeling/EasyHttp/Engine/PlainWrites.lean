import EasyHttp.Cache.MetadataStatement
import EasyHttp.Engine.SharedCache

/-!
# What the calls that share a cache write to its database

* `written`: the metadata that a call of the cache stores;
* `PlainWrites`: a step stores metadata of plain texts only;
* `GivesRows`: the statements of a step give the rows that the step sets;
* `givesRows_of_plainWrites`: so they do in every run whose steps store plain texts.
-/

namespace EasyHttp.SharedCache

open HttpCacheDatabase

/-- The metadata that a call stores. -/
def written : CacheReaders.Call → Option HttpCacheMetadata
  | .putMetadata _ httpCacheMetadata | .put _ httpCacheMetadata _ => some httpCacheMetadata
  | _ => none

section
variable (json : PocoJson) (makeCacheKey : HttpMethod → String → String)

/-- Whatever the step stores has plain texts. -/
def PlainWrites (closesAtEnd : Bool) (s : System) (action : Action) : Prop :=
  ∀ asked ∈ calls makeCacheKey s action, ∀ httpCacheMetadata ∈ written asked.call,
    PlainTexts closesAtEnd json httpCacheMetadata

/-- Whatever the step stores, the statement written for it gives the row. -/
def GivesRows {Conf : Type} (conf : Db.Poco Conf) (s : System) (action : Action) : Prop :=
  ∀ asked ∈ calls makeCacheKey s action, ∀ httpCacheMetadata ∈ written asked.call,
    WritesRow conf json asked.nowAtEpoch httpCacheMetadata

instance (closesAtEnd : Bool) (s : System) (action : Action) :
    Decidable (PlainWrites json makeCacheKey closesAtEnd s action) :=
  inferInstanceAs (Decidable (∀ asked ∈ calls makeCacheKey s action,
    ∀ httpCacheMetadata ∈ written asked.call, PlainTexts closesAtEnd json httpCacheMetadata))

end

variable {poco : Poco} {json : PocoJson} {makeCacheKey : HttpMethod → String → String}
  {s : System} {actions : List Action}

/-- A run that stores plain texts writes the rows that it is said to set. -/
theorem givesRows_of_plainWrites {Conf : Type} {conf : Db.Poco Conf} {closesAtEnd : Bool}
    (hconf : Db.ContentValues.Documented conf closesAtEnd)
    (h : Runs.EveryStep (step poco json makeCacheKey) (PlainWrites json makeCacheKey closesAtEnd) s
      actions) :
    Runs.EveryStep (step poco json makeCacheKey) (GivesRows json makeCacheKey conf) s actions :=
  h.mono fun _ _ hplain asked hasked httpCacheMetadata hwritten =>
    writesRow_of_plainTexts hconf (hplain asked hasked httpCacheMetadata hwritten)

end EasyHttp.SharedCache
