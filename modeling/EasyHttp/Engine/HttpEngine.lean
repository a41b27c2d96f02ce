import EasyHttp.Cache.HttpCacheInternal

/-!
# `HttpEngine` and `HttpRequestExecutor`: one call with its redirects

A call without interceptors is a chain of hops. In each hop an engine looks the request up in
the cache, sends it if it must, and makes a response; the executor then derives the next
hop's request from a redirect response. What the surroundings answer in a hop is given by
`Surroundings`. What the hops do to the cache itself is not part of this model: a later hop
finds there what its own surroundings say.
-/

namespace EasyHttp

open HttpConstants HttpCacheStrategy

/-- A response as it comes from the server. -/
structure NetworkAnswer where
  status : ℤ
  reason : String
  headers : List (String × String)
  hasContentLength : Bool
  contentLength : Int64
  sentRequestSec : Int64
  receivedResponseSec : Int64

/-- What a hop meets. -/
structure Surroundings where
  /-- `cancel` was called before the engine was made. -/
  cancelled : Bool
  /-- The time of the lookup. -/
  nowAtEpoch : UInt64
  /-- What the cache manager answers for the request. -/
  metadata : Option HttpCacheMetadata
  /-- The stream of the stored body can be opened. -/
  dataStream : Bool
  /-- The answer over the network, after a retry on a new connection if there was one. -/
  network : Except HttpException NetworkAnswer
  /-- Reading the body of a redirect response for the cache. -/
  readAll : Except HttpException Unit

namespace HttpEngine

/-- Redirects are followed. -/
def EnableRedirect : Bool := true

/-- A redirect to another scheme is not followed. -/
def EnableSchemeChangedRedirect : Bool := false

/-! ## Sending -/

/-- `receiveResponse` catches Poco's exceptions; its own pass through. -/
def receiveError (uri : Uri) : HttpException → HttpException
  | .poco message =>
    .execution ("IO error occurred in receiveResponse. [scheme=" ++ uri.scheme ++ ", host="
      ++ uri.host ++ "] message=[" ++ message ++ "]")
  | e => e

/-- `Headers` and `CacheControl` from the headers of an answer. -/
def parseHeaders (poco : Poco) (answer : NetworkAnswer) :
    Except HttpException (Headers × CacheControl) := do
  let headers ← Headers.empty.addAll answer.headers
  let cacheControl ← CacheControl.createFromHeaders poco (some headers)
  return (headers, cacheControl)

/-- The network response. -/
def receiveResponse (poco : Poco) (networkRequest : Request) (uri : Uri)
    (answer : NetworkAnswer) : Except HttpException Response :=
  match parseHeaders poco answer with
  | .error e => .error (receiveError uri e)
  | .ok (headers, cacheControl) =>
    .ok (Response.build {
      request := networkRequest
      statusCode := answer.status
      statusMessage := answer.reason
      hasContentLength := answer.hasContentLength
      contentLength := answer.contentLength
      headers := headers
      cacheControl := some cacheControl
      body := some {
        hasContentLength := answer.hasContentLength
        contentLength := answer.contentLength
        stream := .withoutCaching }
      sentRequestSec := answer.sentRequestSec
      receivedResponseSec := answer.receivedResponseSec })

/-- What the attempts come to: the answer of the server, or an exception. -/
def sendRequestAndReceiveResponseWithRetryByConnection (poco : Poco) (env : Surroundings)
    (networkRequest : Request) : Except HttpException Response :=
  match poco.uri networkRequest.url with
  | .error message => .error (.execution
      ("Url is not valid. [" ++ networkRequest.url ++ "] message=[" ++ message ++ "]"))
  | .ok uri => do
    let answer ← env.network
    receiveResponse poco networkRequest uri answer

/-! ## Responses for the user -/

/-- The body of what the user gets comes from the cache's stream. -/
def createResponseBodyFromCache (env : Surroundings) (cacheResponse : Response) :
    Except HttpException ResponseBody :=
  if env.dataStream then
    .ok {
      hasContentLength := cacheResponse.hasContentLength
      contentLength := cacheResponse.contentLength
      stream := .fromCache }
  else .error (.execution "Can not create response body from cache. Maybe cache is broken.")

/-- `none` is a NULL network response. -/
def createUserResponseFromCacheResponse (env : Surroundings) (userRequest : Request)
    (cacheResponse : Response) : Option Response → Except HttpException Response
  | none => do
    let body ← createResponseBodyFromCache env cacheResponse
    return Response.build { cacheResponse with request := userRequest, body := some body }
  | some networkResponse => do
    let combinedHeaders ← combineCacheAndNetworkHeader cacheResponse networkResponse
    let body ← createResponseBodyFromCache env cacheResponse
    return Response.build { cacheResponse with
      request := userRequest
      body := some body
      headers := combinedHeaders
      sentRequestSec := networkResponse.sentRequestSec
      receivedResponseSec := networkResponse.receivedResponseSec }

/-- The user gets the network response. -/
def createUserResponseFromNetworkResponse (networkResponse : Response) : Response :=
  networkResponse.build

/-- The body is exchanged for one that stores what is read. -/
def createUserResponseWithCaching (networkResponse : Response) : Response :=
  Response.build { networkResponse with
    body := networkResponse.body.map fun body => { body with stream := .withCaching } }

/-- The answer when only the cache may be used and has nothing. -/
def gatewayTimeoutResponse (userRequest : Request) (nowAtEpoch : UInt64) : Response where
  request := userRequest
  statusCode := 504
  statusMessage := "Gateway Timeout"
  sentRequestSec := nowAtEpoch.toInt64
  receivedResponseSec := nowAtEpoch.toInt64

/-! ## One hop -/

/-- What `checkCacheBeforeSendRequest` leaves in its arguments and in `m_pCacheResponse`. -/
structure CacheCheck where
  userResponse : Option Response
  networkRequest : Option Request
  cacheResponse : Option Response

/-- What the cache says before anything is sent. -/
def checkCacheBeforeSendRequest (poco : Poco) (hasCache : Bool) (env : Surroundings)
    (userRequest : Request) : Exec HttpException HeaderStore CacheCheck := do
  let s ← Exec.getState
  if !hasCache || !isAvailableToCache userRequest s then
    return { userResponse := none, networkRequest := some userRequest, cacheResponse := none }
  else
    let cacheStrategy ←
      HttpCacheInternal.createCacheStrategy poco userRequest env.metadata env.nowAtEpoch
    match cacheStrategy.networkRequest, cacheStrategy.cacheResponse with
    | none, none =>
      return {
        userResponse := some (gatewayTimeoutResponse userRequest env.nowAtEpoch)
        networkRequest := none
        cacheResponse := none }
    | none, some cacheResponse =>
      let userResponse ←
        Exec.lift (createUserResponseFromCacheResponse env userRequest cacheResponse none)
      return {
        userResponse := some userResponse
        networkRequest := none
        cacheResponse := some cacheResponse }
    | some networkRequest, cacheResponse =>
      return {
        userResponse := none
        networkRequest := some networkRequest
        cacheResponse := cacheResponse }

/-- The end of `execute`: the user's response for a network response. -/
def createUserResponse (poco : Poco) (hasCache : Bool) (env : Surroundings)
    (userRequest : Request) (cacheResponse : Option Response) (networkResponse : Response)
    (s : HeaderStore) : Except HttpException Response :=
  if !hasCache then .ok (createUserResponseFromNetworkResponse networkResponse)
  else match cacheResponse.filter fun cached => isValidCacheResponse poco cached networkResponse with
    | some cached =>
      createUserResponseFromCacheResponse env userRequest cached (some networkResponse)
    | none =>
      if isCacheable networkResponse s then .ok (createUserResponseWithCaching networkResponse)
      else .ok (createUserResponseFromNetworkResponse networkResponse)

/-- `execute`, after the lookup. -/
def executeAfterCheck (poco : Poco) (hasCache : Bool) (env : Surroundings)
    (userRequest : Request) (check : CacheCheck) : Exec HttpException HeaderStore Response :=
  match check.userResponse, check.networkRequest with
  | some userResponse, _ => return userResponse
  | none, some networkRequest => do
    let networkResponse ←
      Exec.lift (sendRequestAndReceiveResponseWithRetryByConnection poco env networkRequest)
    let s ← Exec.getState
    Exec.lift
      (createUserResponse poco hasCache env userRequest check.cacheResponse networkResponse s)
  -- a NULL request is dereferenced
  | none, none => throw (.poco "Null pointer")

/-- One round of the engine. -/
def execute (poco : Poco) (hasCache : Bool) (env : Surroundings) (userRequest : Request) :
    Exec HttpException HeaderStore Response := do
  let check ← checkCacheBeforeSendRequest poco hasCache env userRequest
  executeAfterCheck poco hasCache env userRequest check

/-! ## Redirects -/

/-- The status codes of the redirects that are followed. -/
def isRetryStatusCode (response : Response) : Bool :=
  response.statusCode ∈ [307, 308, 301, 302, 303]
    && (response.request.method = .get || response.request.method = .head)

/-- Whether a header goes into the request of the next hop. -/
def keepsHeader (beforeUri resolvedUri : Uri) (header : String × String) : Bool :=
  if icompare header.1 HeaderNames.Authorization then
    beforeUri.scheme = resolvedUri.scheme && beforeUri.host = resolvedUri.host
      && beforeUri.port = resolvedUri.port
  else true

/-- The end of `makeRetryRequest`: the request for `resolvedUrl`. -/
def buildRetryRequest (poco : Poco) (request : Request) (resolvedUrl : String) :
    Exec HttpException HeaderStore (Option Request) := do
  let beforeUri ← Exec.lift (poco.parseUri request.url)
  let resolvedUri ← Exec.lift (poco.parseUri resolvedUrl)
  if beforeUri.scheme ≠ resolvedUri.scheme && !EnableSchemeChangedRedirect then
    return none
  else
    let requestHeaders ← Store.readCell request.headers
    let retryHeaders ← Exec.lift
      (Headers.empty.addAll (requestHeaders.items.filter (keepsHeader beforeUri resolvedUri)))
    let headers ← Store.newCell retryHeaders
    let retryRequestBuilder ←
      Exec.lift ((RequestBuilder.ofRequest request).setUrl poco resolvedUrl)
    let retryRequest ← (retryRequestBuilder.setHeaders headers).build poco
    return some retryRequest

/-- `none` is NULL: the response is not followed. -/
def makeRetryRequest (poco : Poco) (response : Response) :
    Exec HttpException HeaderStore (Option Request) :=
  if !response.hasHeader HeaderNames.Location then return none
  else
    let redirectUrl := response.getHeaderValue HeaderNames.Location ""
    if redirectUrl = "" then return none
    else match poco.decode redirectUrl with
      | .error _ => return none
      | .ok resolvedUrl =>
        if resolvedUrl = "" then return none
        else buildRetryRequest poco response.request resolvedUrl

/-- The request of the next round, if there is one. -/
def getRetryRequest (poco : Poco) (response : Response) :
    Exec HttpException HeaderStore (Option Request) :=
  if !isRetryStatusCode response || !EnableRedirect then return none
  else makeRetryRequest poco response

end HttpEngine

namespace HttpRequestExecutor

/-- How many redirects are followed. -/
def MaxRetryCount : ℕ := 5

/-- The body of the loop of `executeWithRetry`: the response of a hop and, if it is to be
followed, the request of the next. -/
def hop (poco : Poco) (hasCache : Bool) (env : Surroundings) (currentRequest : Request) :
    Exec HttpException HeaderStore (Response × Option Request) := do
  if env.cancelled then
    throw (.execution "http request is cancelled.")
  let userResponse ← HttpEngine.execute poco hasCache env currentRequest
  let retryRequest ← HttpEngine.getRetryRequest poco userResponse
  if retryRequest.isSome then
    Exec.lift env.readAll
  return (userResponse, retryRequest)

/-- The loop, with the number of rounds left and the number of the hop. -/
def retryLoop (poco : Poco) (hasCache : Bool) (env : ℕ → Surroundings) :
    ℕ → ℕ → Request → Exec HttpException HeaderStore Response
  | 0, _, _ => throw (.execution "too many retry request. 5 times.")
  | rounds + 1, retryCount, currentRequest => do
    let (userResponse, retryRequest) ← hop poco hasCache (env retryCount) currentRequest
    match retryRequest with
    | some retryRequest => retryLoop poco hasCache env rounds (retryCount + 1) retryRequest
    | none => return userResponse

/-- The loop runs while `retryCount <= MaxRetryCount`. -/
def executeWithRetry (poco : Poco) (hasCache : Bool) (env : ℕ → Surroundings)
    (request : Request) : Exec HttpException HeaderStore Response :=
  retryLoop poco hasCache env (MaxRetryCount + 1) 0 request

end HttpRequestExecutor

end EasyHttp
