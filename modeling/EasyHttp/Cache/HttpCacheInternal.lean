import EasyHttp.Cache.HttpCacheDatabase
import EasyHttp.Cache.HttpCacheStrategy

/-!
# `HttpCacheInternal`: from stored metadata to a strategy

The cache manager answers a lookup with the metadata of an entry, or with nothing.
-/

namespace EasyHttp

open HttpConstants

namespace HttpCacheInternal

/-- The stored response, as one for this request. -/
def createResponseFromCacheMetadata (poco : Poco) (request : Request)
    (httpCacheMetadata : HttpCacheMetadata) : Except HttpException Response := do
  let cacheControl ← CacheControl.createFromHeaders poco httpCacheMetadata.responseHeaders
  match httpCacheMetadata.responseHeaders with
  -- the pointer is dereferenced without a check
  | none => throw (.poco "Null pointer")
  | some headers =>
    let builder : Response := {
      request := request
      statusCode := httpCacheMetadata.statusCode
      statusMessage := httpCacheMetadata.statusMessage
      headers := headers
      cacheControl := some cacheControl
      sentRequestSec := httpCacheMetadata.sentRequestAtEpoch
      receivedResponseSec := httpCacheMetadata.receivedResponseAtEpoch }
    if headers.has HeaderNames.ContentLength then
      match poco.tryParse64 (headers.getValue HeaderNames.ContentLength "-1") with
      | some contentLength =>
        return { builder with hasContentLength := true, contentLength := contentLength }
      | none => return builder
    else
      return builder

/-- `metadata` is what the cache manager answers for the key of the request; an empty key is
not looked up. -/
def createCacheStrategy (poco : Poco) (request : Request) (metadata : Option HttpCacheMetadata)
    (nowAtEpoch : UInt64) : Exec HttpException HeaderStore HttpCacheStrategy :=
  match metadata with
  | none => HttpCacheStrategy.construct poco request none nowAtEpoch
  | some httpCacheMetadata => do
    let cacheResponse ←
      Exec.lift (createResponseFromCacheMetadata poco request httpCacheMetadata)
    HttpCacheStrategy.construct poco request (some cacheResponse) nowAtEpoch

end HttpCacheInternal

end EasyHttp
