import EasyHttp.Message.Response

/-!
# `HttpCacheStrategy`: what to do with a stored response

From a request, a stored response and the time, the constructor decides between answering
from the cache, asking the server whether the stored response is still valid, and sending
the request as it is. `long long` is `Int64`, `unsigned long long` is `UInt64`; signed
arithmetic wraps as it does on the supported targets.
-/

namespace EasyHttp

open HttpConstants

namespace HttpCacheStrategy

/-- From this age on a heuristic lifetime is warned of. -/
def OneDaySec : UInt64 := 24 * 60 * 60

/-- The members that the constructor prepares from the stored response. `ageSec` is `none`
when there is no `Age` header and -1 when its value is not a number. -/
structure Prepared where
  nowAtEpoch : UInt64
  cacheResponse : Response
  responseDate : Option Timestamp
  lastModified : Option Timestamp
  expires : Option Timestamp
  ageSec : Option Int64

/-- The date in a header, if there is one. -/
def headerDate (poco : Poco) (response : Response) (name : String) : Option Timestamp :=
  if response.hasHeader name then poco.tryParseDate (response.getHeaderValue name "") else none

/-- What the constructor reads from the headers of the stored response. -/
def prepare (poco : Poco) (cacheResponse : Response) (nowAtEpoch : UInt64) : Prepared where
  nowAtEpoch := nowAtEpoch
  cacheResponse := cacheResponse
  responseDate := headerDate poco cacheResponse HeaderNames.Date
  lastModified := headerDate poco cacheResponse HeaderNames.LastModified
  expires := headerDate poco cacheResponse HeaderNames.Expires
  ageSec :=
    if cacheResponse.hasHeader HeaderNames.Age then
      some ((poco.tryParse64 (cacheResponse.getHeaderValue HeaderNames.Age "")).getD (-1))
    else none

/-! ## Age and lifetime -/

/-- The age on receipt, with the time that the response was under way and the time since. -/
def calculateCacheResponseAge (p : Prepared) : UInt64 :=
  let receivedResponseSec := p.cacheResponse.receivedResponseSec
  let apparentReceivedAge := match p.responseDate with
    | some date => max 0 (receivedResponseSec - date.epochTime)
    | none => 0
  let receivedAge := match p.ageSec with
    | some ageSec => max apparentReceivedAge ageSec
    | none => apparentReceivedAge
  let responseDuration := receivedResponseSec - p.cacheResponse.sentRequestSec
  let residentDuration := (p.nowAtEpoch - receivedResponseSec.toUInt64).toInt64
  (receivedAge + responseDuration + residentDuration).toUInt64

/-- `getMaxAgeSec` of the stored response's directives, -1 when there are none. -/
def responseMaxAgeSec (p : Prepared) : Int64 :=
  match p.cacheResponse.cacheControl with
  | some cacheControl => cacheControl.maxAgeSec
  | none => -1

/-- `must-revalidate` of the stored response. -/
def isResponseMustRevalidate (p : Prepared) : Bool :=
  match p.cacheResponse.cacheControl with
  | some cacheControl => cacheControl.mustRevalidate
  | none => false

/-- `no-cache` of the stored response. -/
def isResponseNoCache (p : Prepared) : Bool :=
  match p.cacheResponse.cacheControl with
  | some cacheControl => cacheControl.noCache
  | none => false

/-- The second from which a lifetime counts: the `Date`, or what is taken instead. -/
def responseSec (p : Prepared) (otherwise : Int64) : Int64 :=
  match p.responseDate with
  | some date => date.epochTime
  | none => otherwise

/-- By `max-age`, by `Expires`, or a tenth of the time since `Last-Modified`. -/
def calculateFreshnessLifetime (poco : Poco) (p : Prepared) : Except HttpException UInt64 :=
  if responseMaxAgeSec p ≠ -1 then
    .ok (responseMaxAgeSec p).toUInt64
  else match p.expires with
    | some expires =>
      let delta := expires.epochTime - responseSec p p.cacheResponse.receivedResponseSec
      .ok (if delta > 0 then delta else 0).toUInt64
    | none => do
      let uri ← poco.parseUri p.cacheResponse.request.url
      match p.lastModified with
      | some lastModified =>
        if uri.query = "" then
          let delta := responseSec p p.cacheResponse.sentRequestSec - lastModified.epochTime
          return (if delta > 0 then delta / 10 else 0).toUInt64
        else return 0
      | none => return 0

/-- The four numbers that are compared. -/
structure AgeCondition where
  ageSec : UInt64
  minFreshSec : UInt64
  freshSec : UInt64
  maxStaleSec : UInt64
deriving DecidableEq

/-- What is compared, with the directives of the request. -/
def ageCondition (poco : Poco) (request : CacheControl) (p : Prepared) :
    Except HttpException AgeCondition := do
  let freshSec ← calculateFreshnessLifetime poco p
  return {
    ageSec := calculateCacheResponseAge p
    minFreshSec := if request.minFreshSec ≠ -1 then request.minFreshSec.toUInt64 else 0
    freshSec :=
      if request.maxAgeSec ≠ -1 then min freshSec request.maxAgeSec.toUInt64 else freshSec
    maxStaleSec :=
      if !isResponseMustRevalidate p && request.maxStaleSec ≠ -1 then
        request.maxStaleSec.toUInt64
      else 0 }

/-- The comparison, in 64 bits. -/
def AgeCondition.holds (c : AgeCondition) : Bool :=
  c.ageSec + c.minFreshSec < c.freshSec + c.maxStaleSec

/-! ## The decision -/

/-- The warnings to answer with. -/
def extraHeaders (p : Prepared) (c : AgeCondition) : List (String × String) :=
  (if c.ageSec + c.minFreshSec ≥ c.freshSec then
    [(HeaderNames.Warning, HeaderValues.ResponseIsStale)] else [])
  ++ (if c.ageSec > OneDaySec ∧ responseMaxAgeSec p = -1 ∧ p.expires.isNone then
    [(HeaderNames.Warning, HeaderValues.HeuristicExpiration)] else [])

/-- The stored response with its warnings. -/
def withWarnings (p : Prepared) (c : AgeCondition) : Except HttpException Response :=
  if (extraHeaders p c).length > 0 then do
    let responseBuilder ← (extraHeaders p c).foldlM
      (fun responseBuilder header => responseBuilder.addHeader header.1 header.2) p.cacheResponse
    return responseBuilder.build
  else
    return p.cacheResponse

/-- The one header of a conditional request, `none` when the stored response names no
validator and no date. -/
def conditionalRequestHeader (response : Response) : Option (String × String) :=
  if response.hasHeader HeaderNames.ETag then
    some (HeaderNames.IfNoneMatch, response.getHeaderValue HeaderNames.ETag "")
  else if response.hasHeader HeaderNames.LastModified then
    some (HeaderNames.IfModifiedSince, response.getHeaderValue HeaderNames.LastModified "")
  else if response.hasHeader HeaderNames.Date then
    some (HeaderNames.IfModifiedSince, response.getHeaderValue HeaderNames.Date "")
  else none

end HttpCacheStrategy

/-- The outcome: the request to send and the stored response to use, `none` for NULL. -/
structure HttpCacheStrategy where
  networkRequest : Option Request
  cacheResponse : Option Response
deriving DecidableEq

namespace HttpCacheStrategy

/-- The end of `resolveCacheResponseAndNetworkRequest`: the request to send when the stored
response is not fresh. -/
def createNetworkRequest (poco : Poco) (request : Request) (cacheResponse : Response) :
    Exec HttpException HeaderStore HttpCacheStrategy := do
  match conditionalRequestHeader cacheResponse with
  | some (name, value) =>
    let builder ← (RequestBuilder.ofRequest request).setHeader name value
    let networkRequest ← builder.build poco
    return { networkRequest := some networkRequest, cacheResponse := some cacheResponse }
  | none =>
    let networkRequest ← (RequestBuilder.ofRequest request).build poco
    return { networkRequest := some networkRequest, cacheResponse := none }

/-- The stored response if it is fresh; else a request, unless only the cache may answer. -/
def resolveCacheResponseAndNetworkRequest (poco : Poco) (request : Request) (p : Prepared) :
    Exec HttpException HeaderStore HttpCacheStrategy := do
  let condition ← Exec.lift (ageCondition poco request.cacheControl p)
  if !isResponseNoCache p && condition.holds then
    let cacheResponse ← Exec.lift (withWarnings p condition)
    return { networkRequest := none, cacheResponse := some cacheResponse }
  else if request.cacheControl.onlyIfCached then
    return { networkRequest := none, cacheResponse := none }
  else
    createNetworkRequest poco request p.cacheResponse

/-- The constructor; `none` is a NULL stored response. -/
def construct (poco : Poco) (request : Request) (cacheResponse : Option Response)
    (nowAtEpoch : UInt64) : Exec HttpException HeaderStore HttpCacheStrategy :=
  match cacheResponse with
  | some response =>
    resolveCacheResponseAndNetworkRequest poco request (prepare poco response nowAtEpoch)
  | none => pure {
      networkRequest := if request.cacheControl.onlyIfCached then none else some request
      cacheResponse := none }

/-! ## The other decisions -/

/-- The request may be answered from the cache. -/
def isAvailableToCache (request : Request) (s : HeaderStore) : Bool :=
  request.method = .get
    && !request.hasHeader s HeaderNames.Authorization
    && !request.cacheControl.noCache
    && !request.hasHeader s HeaderNames.IfModifiedSince
    && !request.hasHeader s HeaderNames.IfNoneMatch

/-- The stored response is still the valid one. -/
def isValidCacheResponse (poco : Poco) (cacheResponse networkResponse : Response) : Bool :=
  if networkResponse.statusCode = 304 then true
  else match headerDate poco cacheResponse HeaderNames.LastModified,
      headerDate poco networkResponse HeaderNames.LastModified with
    | some cacheLastModified, some networkLastModified =>
      networkLastModified.microseconds < cacheLastModified.microseconds
    | _, _ => false

/-- The header is none that is meant for one connection. -/
def isEndToEnd (name : String) : Bool :=
  !icompare name HeaderNames.Connection && !icompare name HeaderNames.KeepAlive
    && !icompare name HeaderNames.ProxyAuthenticate && !icompare name HeaderNames.ProxyAuthorization
    && !icompare name HeaderNames.Te && !icompare name HeaderNames.Trailers
    && !icompare name HeaderNames.TransferEncoding && !icompare name HeaderNames.Upgrade

/-- Whether an item of the stored response goes into the combined headers. -/
def keepsCached (networkResponse : Response) (item : String × String) : Bool :=
  if icompare item.1 HeaderNames.Warning && icompareFrom item.2 1 "1" then
    false -- meant for a 1xx warning, but the comparison starts behind the first character
  else if icompare item.1 HeaderNames.ContentLength then true
  else !isEndToEnd item.1 || !networkResponse.hasHeader item.1

/-- Whether an item of the network response goes into the combined headers. -/
def keepsNetwork (item : String × String) : Bool :=
  !icompare item.1 HeaderNames.ContentLength && isEndToEnd item.1

/-- The headers of a stored response that was confirmed. -/
def combineCacheAndNetworkHeader (cacheResponse networkResponse : Response) :
    Except HttpException Headers := do
  let headers ← Headers.empty.addAll
    (cacheResponse.headers.items.filter (keepsCached networkResponse))
  headers.addAll (networkResponse.headers.items.filter keepsNetwork)

/-- The response of a method that changes what is stored. -/
def isInvalidCacheMethod (response : Response) : Bool :=
  response.isSuccessful && match response.request.method with
    | .post | .patch | .put | .delete => true
    | _ => false

/-- The status codes that may be stored, as far as the response itself decides. -/
def isCacheableStatus (response : Response) : Bool :=
  if response.statusCode ∈ [200, 203, 204, 300, 301, 404, 405, 410, 414, 501] then true
  else if response.statusCode ∈ [308, 302, 307] then
    response.hasHeader HeaderNames.Expires || match response.cacheControl with
      | some cacheControl =>
        cacheControl.maxAgeSec ≠ -1 || cacheControl.isPublic || cacheControl.isPrivate
      | none => false
  else false

/-- The response may be stored. -/
def isCacheable (response : Response) (s : HeaderStore) : Bool :=
  let noStore := match response.cacheControl with
    | some cacheControl => cacheControl.noStore
    | none => false
  response.request.method = .get
    && isCacheableStatus response
    && !response.request.cacheControl.noStore
    && !response.request.hasHeader s HeaderNames.Authorization
    && !noStore
    && if !response.hasContentLength || response.contentLength = -1 then
        icompare (response.getHeaderValue HeaderNames.TransferEncoding "") HeaderValues.Chunked
      else true

end HttpCacheStrategy

end EasyHttp
