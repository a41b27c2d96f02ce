import EasyHttp.Engine.HttpEngine
import EasyHttp.Cache.HttpCacheStrategyTheorems

/-!
# What one hop does

`cacheDecision` names the ways in which the lookup in the cache can end, as a function of the
request, the store and the surroundings. From it follow:

* `exec_checkCache`: the result of the lookup and the store it leaves;
* `conditionalHeader_isSome`: when the lookup sets a conditional header;
* `exec_execute_store`, `execute_request_headers`: an engine changes the store only through its
  lookup, and its response refers to a request with the header list that the hop's request has
  then;
* `buildRetryRequest_some`: the request made from a redirect response.
-/

namespace EasyHttp

open HttpConstants HttpCacheStrategy Exec

/-- A header that makes a request conditional. -/
structure ConditionalHeader where
  name : String
  value : String
  conditional : IsConditionalName name

/-- The headers with a conditional header set. -/
def Headers.setConditional (h : Headers) (header : ConditionalHeader) : Headers :=
  h.setNamed header.name header.value header.conditional.ne_empty

namespace HttpEngine

/-! ## How the lookup ends -/

/-- What the strategy comes to. -/
inductive CacheDecision where
  /-- The request is sent as it is. -/
  | send
  /-- Only the cache may be used, and it has nothing to use. -/
  | gatewayTimeout
  | answer (cacheResponse : Response)
  | revalidate (header : ConditionalHeader) (cacheResponse : Response)
  /-- The stored response cannot be used, and a copy of the request is sent. -/
  | sendCopy
  | fail (e : HttpException)

/-- How the strategy for a stored response ends. -/
def strategyDecision (poco : Poco) (request : Request) (p : Prepared) : CacheDecision :=
  match ageCondition poco request.cacheControl p with
  | .error e => .fail e
  | .ok c =>
    if isFresh p c then
      match withWarnings p c with
      | .error e => .fail e
      | .ok response => .answer response
    else if request.cacheControl.onlyIfCached then .gatewayTimeout
    else match h : conditionalRequestHeader p.cacheResponse with
      | some (name, value) =>
        .revalidate ⟨name, value, conditionalRequestHeader_name h⟩ p.cacheResponse
      | none => .sendCopy

/-- How the lookup of a request ends. -/
def cacheDecision (poco : Poco) (hasCache : Bool) (env : Surroundings) (request : Request)
    (s : HeaderStore) : CacheDecision :=
  if !hasCache || !isAvailableToCache request s then .send
  else match env.metadata with
    | none => if request.cacheControl.onlyIfCached then .gatewayTimeout else .send
    | some metadata =>
      match HttpCacheInternal.createResponseFromCacheMetadata poco request metadata with
      | .error e => .fail e
      | .ok cacheResponse =>
        strategyDecision poco request (prepare poco cacheResponse env.nowAtEpoch)

namespace CacheDecision

/-- The store after the lookup. -/
def storeAfter (request : Request) (s : HeaderStore) : CacheDecision → HeaderStore
  | revalidate header _ =>
    let written := s.write request.headers ((s.deref request.headers).setConditional header)
    written.alloc (written.deref request.headers)
  | sendCopy => s.alloc (s.deref request.headers)
  | _ => s

/-- The request to send after the lookup. -/
def networkRequest (request : Request) (s : HeaderStore) : CacheDecision → Option Request
  | send => some request
  | revalidate _ _ | sendCopy => some { request with headers := s.next }
  | _ => none

/-- What the lookup returns. -/
def check (env : Surroundings) (request : Request) (s : HeaderStore) :
    CacheDecision → Except HttpException CacheCheck
  | send => .ok { userResponse := none, networkRequest := some request, cacheResponse := none }
  | gatewayTimeout => .ok {
      userResponse := some (gatewayTimeoutResponse request env.nowAtEpoch)
      networkRequest := none
      cacheResponse := none }
  | answer cacheResponse =>
    (createUserResponseFromCacheResponse env request cacheResponse none).map fun userResponse => {
      userResponse := some userResponse
      networkRequest := none
      cacheResponse := some cacheResponse }
  | revalidate _ cacheResponse => .ok {
      userResponse := none
      networkRequest := some { request with headers := s.next }
      cacheResponse := some cacheResponse }
  | sendCopy => .ok {
      userResponse := none
      networkRequest := some { request with headers := s.next }
      cacheResponse := none }
  | fail e => .error e

/-- The conditional header that the lookup sets. -/
def conditionalHeader : CacheDecision → Option ConditionalHeader
  | revalidate header _ => some header
  | _ => none

end CacheDecision

/-- The outcome of a strategy that ends in a decision. -/
def CacheDecision.strategy (request : Request) (s : HeaderStore) :
    CacheDecision → Except HttpException HttpCacheStrategy
  | .send => .ok { networkRequest := some request, cacheResponse := none }
  | .gatewayTimeout => .ok { networkRequest := none, cacheResponse := none }
  | .answer cacheResponse => .ok { networkRequest := none, cacheResponse := some cacheResponse }
  | .revalidate _ cacheResponse => .ok {
      networkRequest := some { request with headers := s.next }
      cacheResponse := some cacheResponse }
  | .sendCopy => .ok {
      networkRequest := some { request with headers := s.next }
      cacheResponse := none }
  | .fail e => .error e

/-- The code computes this decision. -/
theorem exec_resolve_decision (poco : Poco) (request : Request) (p : Prepared) (s : HeaderStore) :
    exec (resolveCacheResponseAndNetworkRequest poco request p) s =
      ((strategyDecision poco request p).strategy request s,
        (strategyDecision poco request p).storeAfter request s) := by
  unfold strategyDecision
  cases hc : ageCondition poco request.cacheControl p with
  | error e => exact exec_resolve_error hc s
  | ok c =>
    by_cases hfresh : isFresh p c = true
    · obtain ⟨response, hw, hrun⟩ := exec_resolve_fresh hc hfresh s
      simp only [hfresh, if_true, hw]
      exact hrun
    rw [Bool.not_eq_true] at hfresh
    by_cases honly : request.cacheControl.onlyIfCached = true
    · simp only [hfresh, honly, if_true]
      exact exec_resolve_onlyIfCached hc hfresh honly s
    rw [Bool.not_eq_true] at honly
    simp only [hfresh, honly, Bool.false_eq_true, if_false]
    rw [exec_resolve_stale hc hfresh honly]
    split
    · rename_i name value hcond
      exact exec_createNetworkRequest_some hcond poco request s
    · rename_i hcond
      exact exec_createNetworkRequest_none hcond poco request s

/-- Where the request may be answered from the cache, the decision is about what is stored. -/
theorem exec_createCacheStrategy (poco : Poco) (env : Surroundings) {request : Request}
    {s : HeaderStore} (havail : isAvailableToCache request s = true) :
    exec (HttpCacheInternal.createCacheStrategy poco request env.metadata env.nowAtEpoch) s =
      ((cacheDecision poco true env request s).strategy request s,
        (cacheDecision poco true env request s).storeAfter request s) := by
  unfold HttpCacheInternal.createCacheStrategy
  cases hmeta : env.metadata with
  | none =>
    have hd : cacheDecision poco true env request s =
        if request.cacheControl.onlyIfCached then .gatewayTimeout else .send := by
      simp [cacheDecision, havail, hmeta]
    show exec (construct poco request none env.nowAtEpoch) s = _
    rw [exec_construct_none, hd]
    by_cases honly : request.cacheControl.onlyIfCached = true
    · simp [honly, CacheDecision.strategy, CacheDecision.storeAfter]
    · simp [honly, CacheDecision.strategy, CacheDecision.storeAfter]
  | some metadata =>
    show exec (lift (HttpCacheInternal.createResponseFromCacheMetadata poco request metadata) >>= _)
      s = _
    cases hresp : HttpCacheInternal.createResponseFromCacheMetadata poco request metadata with
    | error e =>
      have hd : cacheDecision poco true env request s = .fail e := by
        simp [cacheDecision, havail, hmeta, hresp]
      rw [exec_bind_error (exec_lift _ _), hd]
      rfl
    | ok cacheResponse =>
      have hd : cacheDecision poco true env request s =
          strategyDecision poco request (prepare poco cacheResponse env.nowAtEpoch) := by
        simp [cacheDecision, havail, hmeta, hresp]
      rw [exec_bind_ok (exec_lift _ _), hd]
      exact exec_resolve_decision poco request _ s

/-- The lookup returns what its decision says and leaves the store that it says. -/
theorem exec_checkCache (poco : Poco) (hasCache : Bool) (env : Surroundings) (request : Request)
    (s : HeaderStore) :
    exec (checkCacheBeforeSendRequest poco hasCache env request) s =
      ((cacheDecision poco hasCache env request s).check env request s,
        (cacheDecision poco hasCache env request s).storeAfter request s) := by
  unfold checkCacheBeforeSendRequest
  rw [exec_bind_ok (exec_getState s)]
  -- without a cache, or with a request that is not available to it, the request is sent
  by_cases huse : (!hasCache || !isAvailableToCache request s) = true
  · rw [if_pos huse]
    unfold cacheDecision
    rw [if_pos huse]
    rfl
  rw [if_neg huse]
  have hcache : hasCache = true := by
    cases hasCache <;> simp at huse ⊢
  have havail : isAvailableToCache request s = true := by
    simpa [hcache] using huse
  subst hcache
  -- the strategy runs as the decision says
  have hrun := exec_createCacheStrategy poco env havail
  cases hd : cacheDecision poco true env request s with
  | send => rw [hd] at hrun; rw [exec_bind_ok hrun]; rfl
  | gatewayTimeout => rw [hd] at hrun; rw [exec_bind_ok hrun]; rfl
  | answer cacheResponse =>
    rw [hd] at hrun
    rw [exec_bind_ok hrun]
    show exec (lift (createUserResponseFromCacheResponse env request cacheResponse none) >>= _) _ = _
    -- the body of the stored response may fail to open
    cases hu : createUserResponseFromCacheResponse env request cacheResponse none with
    | error e =>
      rw [exec_bind_error (exec_lift _ _)]
      simp [CacheDecision.check, hu, Except.map, CacheDecision.storeAfter]
    | ok userResponse =>
      rw [exec_bind_ok (exec_lift _ _)]
      simp [CacheDecision.check, hu, Except.map, CacheDecision.storeAfter, exec_pure]
  | revalidate header cacheResponse => rw [hd] at hrun; rw [exec_bind_ok hrun]; rfl
  | sendCopy => rw [hd] at hrun; rw [exec_bind_ok hrun]; rfl
  | fail e => rw [hd] at hrun; rw [exec_bind_error hrun]; rfl

/-! ## When the lookup sets a header -/

/-- The stored response names something by which the server can tell whether it is still valid. -/
def hasValidator (response : Response) : Bool :=
  response.hasHeader HeaderNames.ETag || response.hasHeader HeaderNames.LastModified
    || response.hasHeader HeaderNames.Date

/-- The stored response is not fresh enough for the request, the network may be used, and the
server can be asked. -/
def needsValidation (poco : Poco) (request : Request) (cacheResponse : Response)
    (nowAtEpoch : UInt64) : Bool :=
  match ageCondition poco request.cacheControl (prepare poco cacheResponse nowAtEpoch) with
  | .error _ => false
  | .ok c =>
    !isFresh (prepare poco cacheResponse nowAtEpoch) c && !request.cacheControl.onlyIfCached
      && hasValidator cacheResponse

/-- The lookup of a request finds a stored response that the server must be asked about. -/
def findsStaleResponse (poco : Poco) (hasCache : Bool) (env : Surroundings) (request : Request)
    (s : HeaderStore) : Bool :=
  hasCache && isAvailableToCache request s && match env.metadata with
    | none => false
    | some metadata =>
      match HttpCacheInternal.createResponseFromCacheMetadata poco request metadata with
      | .error _ => false
      | .ok cacheResponse => needsValidation poco request cacheResponse env.nowAtEpoch

/-- There is a conditional header exactly if the stored response has a validator. -/
theorem conditionalRequestHeader_isSome (response : Response) :
    (conditionalRequestHeader response).isSome = hasValidator response := by
  unfold conditionalRequestHeader hasValidator
  cases response.hasHeader HeaderNames.ETag <;>
    cases response.hasHeader HeaderNames.LastModified <;>
      cases response.hasHeader HeaderNames.Date <;> rfl

/-- A conditional header is sent exactly if the stored response must be validated. -/
theorem strategyDecision_conditionalHeader (poco : Poco) (request : Request)
    (cacheResponse : Response) (nowAtEpoch : UInt64) :
    (strategyDecision poco request
        (prepare poco cacheResponse nowAtEpoch)).conditionalHeader.isSome =
      needsValidation poco request cacheResponse nowAtEpoch := by
  unfold strategyDecision needsValidation
  cases ageCondition poco request.cacheControl (prepare poco cacheResponse nowAtEpoch) with
  | error e => rfl
  | ok c =>
    cases hfresh : isFresh (prepare poco cacheResponse nowAtEpoch) c with
    | true =>
      obtain ⟨response, hw⟩ := withWarnings_ok (prepare poco cacheResponse nowAtEpoch) c
      simp [hfresh, hw, CacheDecision.conditionalHeader]
    | false =>
      cases honly : request.cacheControl.onlyIfCached with
      | true => simp [hfresh, CacheDecision.conditionalHeader]
      | false =>
        have hsome := conditionalRequestHeader_isSome cacheResponse
        simp only [hfresh, Bool.false_eq_true, if_false, Bool.not_false, Bool.true_and, ← hsome]
        split
        · rename_i name value hcond
          replace hcond : conditionalRequestHeader cacheResponse = some (name, value) := hcond
          rw [hcond]
          rfl
        · rename_i hcond
          replace hcond : conditionalRequestHeader cacheResponse = none := hcond
          rw [hcond]
          rfl

/-- The lookup sets a conditional header if and only if it finds such a response. -/
theorem conditionalHeader_isSome (poco : Poco) (hasCache : Bool) (env : Surroundings)
    (request : Request) (s : HeaderStore) :
    (cacheDecision poco hasCache env request s).conditionalHeader.isSome =
      findsStaleResponse poco hasCache env request s := by
  unfold cacheDecision findsStaleResponse
  by_cases huse : (!hasCache || !isAvailableToCache request s) = true
  · rw [if_pos huse]
    cases hasCache <;> cases havail : isAvailableToCache request s <;> simp [havail] at huse ⊢ <;>
      rfl
  rw [if_neg huse]
  have hboth : (hasCache && isAvailableToCache request s) = true := by
    cases hasCache <;> simp at huse ⊢
    exact huse
  rw [hboth, Bool.true_and]
  cases env.metadata with
  | none =>
    by_cases honly : request.cacheControl.onlyIfCached = true <;>
      simp [honly, CacheDecision.conditionalHeader]
  | some metadata =>
    cases hresp : HttpCacheInternal.createResponseFromCacheMetadata poco request metadata with
    | error e => simp [hresp, CacheDecision.conditionalHeader]
    | ok cacheResponse =>
      simp only [hresp]
      exact strategyDecision_conditionalHeader poco request cacheResponse env.nowAtEpoch

/-- Without a stale response in the cache there is no conditional header. -/
theorem conditionalHeader_eq_none_iff {poco : Poco} {hasCache : Bool} {env : Surroundings}
    {request : Request} {s : HeaderStore} :
    (cacheDecision poco hasCache env request s).conditionalHeader = none ↔
      findsStaleResponse poco hasCache env request s = false := by
  rw [← conditionalHeader_isSome, Option.isSome_eq_false_iff, Option.isNone_iff_eq_none]

/-- A request that may get a conditional header has none. -/
theorem not_has_of_available {request : Request} {s : HeaderStore} {name : String}
    (havail : isAvailableToCache request s = true) (hname : IsConditionalName name) :
    (request.getHeaders s).has name = false := by
  simp only [isAvailableToCache, Request.hasHeader, Bool.and_eq_true, Bool.not_eq_true'] at havail
  rcases hname with rfl | rfl
  · exact havail.2
  · exact havail.1.2

/-- A request that is made conditional was available to the cache. -/
theorem available_of_conditionalHeader {poco : Poco} {hasCache : Bool} {env : Surroundings}
    {request : Request} {s : HeaderStore} {header : ConditionalHeader}
    (h : (cacheDecision poco hasCache env request s).conditionalHeader = some header) :
    isAvailableToCache request s = true := by
  have hfinds := conditionalHeader_isSome poco hasCache env request s
  rw [h] at hfinds
  unfold findsStaleResponse at hfinds
  by_contra havail
  rw [Bool.not_eq_true] at havail
  rw [havail, Bool.and_false, Bool.false_and] at hfinds
  cases hfinds

/-! ## The response -/

/-- A built response is that of the builder's request. -/
theorem build_request (builder : Response) : builder.build.request = builder.request := by
  unfold Response.build
  cases builder.body <;> rfl

/-- What the user gets from the cache answers the user's request. -/
theorem createUserResponseFromCacheResponse_request {env : Surroundings} {userRequest : Request}
    {cacheResponse response : Response} {networkResponse : Option Response}
    (h : createUserResponseFromCacheResponse env userRequest cacheResponse networkResponse =
      .ok response) : response.request = userRequest := by
  cases networkResponse with
  | none =>
    rw [createUserResponseFromCacheResponse] at h
    cases hb : createResponseBodyFromCache env cacheResponse with
    | error e =>
      rw [hb] at h
      cases h
    | ok body =>
      rw [hb] at h
      cases h
      rw [build_request]
  | some networkResponse =>
    rw [createUserResponseFromCacheResponse] at h
    cases hc : combineCacheAndNetworkHeader cacheResponse networkResponse with
    | error e =>
      rw [hc] at h
      cases h
    | ok headers =>
      cases hb : createResponseBodyFromCache env cacheResponse with
      | error e =>
        rw [hc, hb] at h
        cases h
      | ok body =>
        rw [hc, hb] at h
        cases h
        rw [build_request]

/-- What is received answers the request that was sent. -/
theorem receiveResponse_request {poco : Poco} {networkRequest : Request} {uri : Uri}
    {answer : NetworkAnswer} {response : Response}
    (h : receiveResponse poco networkRequest uri answer = .ok response) :
    response.request = networkRequest := by
  unfold receiveResponse at h
  split at h
  · cases h
  · cases h
    rw [build_request]

/-- What is received at last answers the request that was sent. -/
theorem sendRequest_request {poco : Poco} {env : Surroundings} {networkRequest : Request}
    {response : Response}
    (h : sendRequestAndReceiveResponseWithRetryByConnection poco env networkRequest =
      .ok response) : response.request = networkRequest := by
  unfold sendRequestAndReceiveResponseWithRetryByConnection at h
  split at h
  · cases h
  · cases hn : env.network with
    | error e =>
      rw [hn] at h
      cases h
    | ok answer =>
      rw [hn] at h
      exact receiveResponse_request h

/-- The user's response refers to the request of the hop or to the one that was sent. -/
theorem createUserResponse_request {poco : Poco} {hasCache : Bool} {env : Surroundings}
    {userRequest : Request} {cacheResponse : Option Response} {networkResponse response : Response}
    {s : HeaderStore}
    (h : createUserResponse poco hasCache env userRequest cacheResponse networkResponse s =
      .ok response) :
    response.request = userRequest ∨ response.request = networkResponse.request := by
  unfold createUserResponse at h
  split at h
  · cases h
    exact .inr (build_request _)
  split at h
  · exact .inl (createUserResponseFromCacheResponse_request h)
  split at h
  · cases h
    exact .inr (build_request _)
  · cases h
    exact .inr (build_request _)

/-- After the check no header list is written. -/
theorem exec_executeAfterCheck_store (poco : Poco) (hasCache : Bool) (env : Surroundings)
    (userRequest : Request) (check : CacheCheck) (s : HeaderStore) :
    (exec (executeAfterCheck poco hasCache env userRequest check) s).2 = s := by
  unfold executeAfterCheck
  split
  · rfl
  · rename_i networkRequest _ _
    cases hsend : sendRequestAndReceiveResponseWithRetryByConnection poco env networkRequest with
    | error e => rw [exec_bind_error (by rw [exec_lift])]
    | ok networkResponse =>
      rw [exec_bind_ok (by rw [exec_lift]), exec_bind_ok (exec_getState s)]
      rfl
  · rfl

/-- An engine changes the store only through its lookup. -/
theorem exec_execute_store (poco : Poco) (hasCache : Bool) (env : Surroundings)
    (request : Request) (s : HeaderStore) :
    (exec (execute poco hasCache env request) s).2 =
      (cacheDecision poco hasCache env request s).storeAfter request s := by
  unfold execute
  cases hc : (cacheDecision poco hasCache env request s).check env request s with
  | error e => rw [exec_bind_error (by rw [exec_checkCache, hc])]
  | ok check =>
    rw [exec_bind_ok (by rw [exec_checkCache, hc]), exec_executeAfterCheck_store]

/-- A response that the lookup gives refers to the request of the hop. -/
theorem check_userResponse_request {env : Surroundings} {request : Request} {s : HeaderStore}
    {d : CacheDecision} {check : CacheCheck} {response : Response}
    (h : d.check env request s = .ok check) (hresp : check.userResponse = some response) :
    response.request = request := by
  cases d with
  | gatewayTimeout =>
    cases h
    cases hresp
    rfl
  | answer cacheResponse =>
    rw [CacheDecision.check] at h
    cases hu : createUserResponseFromCacheResponse env request cacheResponse none with
    | error e =>
      rw [hu] at h
      cases h
    | ok userResponse =>
      rw [hu] at h
      cases h
      cases hresp
      exact createUserResponseFromCacheResponse_request hu
  | send =>
    cases h
    cases hresp
  | revalidate header cacheResponse =>
    cases h
    cases hresp
  | sendCopy =>
    cases h
    cases hresp
  | fail e => cases h

/-- The request that is sent is that of the decision. -/
theorem check_networkRequest {env : Surroundings} {request : Request} {s : HeaderStore}
    {d : CacheDecision} {check : CacheCheck} (h : d.check env request s = .ok check) :
    check.networkRequest = d.networkRequest request s := by
  cases d with
  | gatewayTimeout =>
    cases h
    rfl
  | answer cacheResponse =>
    rw [CacheDecision.check] at h
    cases hu : createUserResponseFromCacheResponse env request cacheResponse none with
    | error e =>
      rw [hu] at h
      cases h
    | ok userResponse =>
      rw [hu] at h
      cases h
      rfl
  | send =>
    cases h
    rfl
  | revalidate header cacheResponse =>
    cases h
    rfl
  | sendCopy =>
    cases h
    rfl
  | fail e => cases h

/-- The response refers to the request of the hop or to the one that was sent. -/
theorem execute_request {poco : Poco} {hasCache : Bool} {env : Surroundings} {request : Request}
    {s : HeaderStore} {response : Response}
    (h : (exec (execute poco hasCache env request) s).1 = .ok response) :
    response.request = request ∨
      (cacheDecision poco hasCache env request s).networkRequest request s =
        some response.request := by
  unfold execute at h
  cases hc : (cacheDecision poco hasCache env request s).check env request s with
  | error e =>
    rw [exec_bind_error (by rw [exec_checkCache, hc])] at h
    cases h
  | ok check =>
    rw [exec_bind_ok (by rw [exec_checkCache, hc])] at h
    unfold executeAfterCheck at h
    split at h
    · rename_i userResponse _ hu
      cases h
      exact .inl (check_userResponse_request hc hu)
    · rename_i networkRequest hu hn
      rw [check_networkRequest hc] at hn
      cases hsend : sendRequestAndReceiveResponseWithRetryByConnection poco env networkRequest with
      | error e =>
        rw [exec_bind_error (by rw [exec_lift, hsend])] at h
        cases h
      | ok networkResponse =>
        rw [exec_bind_ok (by rw [exec_lift, hsend]), exec_bind_ok (exec_getState _)] at h
        rcases createUserResponse_request h with heq | heq
        · exact .inl heq
        · right
          rw [hn, heq, sendRequest_request hsend]
    · cases h

/-! ## Header lists after the lookup -/

namespace CacheDecision

/-- The request's header list after a lookup that ends in `d`. -/
def headersAfter (d : CacheDecision) (h : Headers) : Headers :=
  match d.conditionalHeader with
  | some header => h.setConditional header
  | none => h

variable {request : Request} {s : HeaderStore} (d : CacheDecision)

theorem next_le_storeAfter : s.next ≤ (d.storeAfter request s).next := by
  cases d with
  | revalidate header cacheResponse =>
    show s.next ≤ (Store.alloc _ _).next
    rw [Store.next_alloc, Store.next_write]
    exact Nat.le_succ _
  | sendCopy =>
    show s.next ≤ (Store.alloc _ _).next
    rw [Store.next_alloc]
    exact Nat.le_succ _
  | _ => exact Nat.le_refl _

/-- Header lists other than the request's own are not written. -/
theorem deref_storeAfter_of_ne {p : HeadersPtr} (hp : p < s.next) (hne : p ≠ request.headers) :
    (d.storeAfter request s).deref p = s.deref p := by
  cases d with
  | revalidate header cacheResponse =>
    show (Store.alloc _ _).deref p = _
    rw [Store.deref_alloc (by rw [Store.next_write]; exact hp),
      Store.deref_write_of_ne s (Ne.symm hne)]
  | sendCopy => exact Store.deref_alloc hp _
  | _ => rfl

section
variable (hlive : request.headers < s.next)
include hlive

/-- The request's own list gets the conditional header, if there is one. -/
theorem deref_storeAfter_own :
    (d.storeAfter request s).deref request.headers =
      d.headersAfter (s.deref request.headers) := by
  cases d with
  | revalidate header cacheResponse =>
    show (Store.alloc _ _).deref _ = (s.deref request.headers).setConditional header
    rw [Store.deref_alloc (by rw [Store.next_write]; exact hlive), Store.deref_write_self hlive]
  | sendCopy => exact Store.deref_alloc hlive _
  | _ => rfl

/-- What is sent differs from the request of the hop in the address of its headers only, and
has the headers that the request has then. -/
theorem networkRequest_headers {networkRequest : Request}
    (h : d.networkRequest request s = some networkRequest) :
    networkRequest = { request with headers := networkRequest.headers } ∧
      networkRequest.headers < (d.storeAfter request s).next ∧
      (d.storeAfter request s).deref networkRequest.headers =
        d.headersAfter (s.deref request.headers) := by
  cases d with
  | send =>
    cases h
    exact ⟨rfl, hlive, rfl⟩
  | revalidate header cacheResponse =>
    cases h
    set written := s.write request.headers ((s.deref request.headers).setConditional header)
    have hnext : written.next = s.next := Store.next_write _ _ _
    refine ⟨rfl, ?_, ?_⟩
    · show s.next < (written.alloc _).next
      rw [Store.next_alloc, hnext]
      exact Nat.lt_succ_self _
    · show (written.alloc _).deref s.next = (s.deref request.headers).setConditional header
      rw [← hnext, Store.deref_alloc_next]
      exact Store.deref_write_self hlive _
  | sendCopy =>
    cases h
    refine ⟨rfl, ?_, ?_⟩
    · show s.next < (s.alloc _).next
      rw [Store.next_alloc]
      exact Nat.lt_succ_self _
    · exact Store.deref_alloc_next _ _
  | gatewayTimeout => cases h
  | answer cacheResponse => cases h
  | fail e => cases h

end

end CacheDecision

/-- The response of an engine refers to a request like that of the hop, with the headers that
the hop's request has after the lookup. -/
theorem execute_request_headers {poco : Poco} {hasCache : Bool} {env : Surroundings}
    {request : Request} {s : HeaderStore} {response : Response} (hlive : request.headers < s.next)
    (h : (exec (execute poco hasCache env request) s).1 = .ok response) :
    let d := cacheDecision poco hasCache env request s
    response.request = { request with headers := response.request.headers } ∧
      response.request.headers < (d.storeAfter request s).next ∧
      (d.storeAfter request s).deref response.request.headers =
        d.headersAfter (s.deref request.headers) := by
  intro d
  rcases execute_request h with heq | hnet
  · rw [heq]
    exact ⟨rfl, Nat.lt_of_lt_of_le hlive d.next_le_storeAfter, d.deref_storeAfter_own hlive⟩
  · exact d.networkRequest_headers hlive hnet

/-! ## The request of the next hop -/

/-- Whether a header is kept depends on its name in lower case. -/
theorem keepsHeader_eq (beforeUri resolvedUri : Uri) :
    ∃ p : List Char → Bool, keepsHeader beforeUri resolvedUri = fun e => p (lower e.1) :=
  ⟨fun n => if decide (n = lower HeaderNames.Authorization) then
    beforeUri.scheme = resolvedUri.scheme && beforeUri.host = resolvedUri.host
      && beforeUri.port = resolvedUri.port
    else true, rfl⟩

/-- The request for a redirect: the same scheme, and the headers that are kept. -/
theorem buildRetryRequest_some {poco : Poco} {request retryRequest : Request} {resolvedUrl : String}
    {s s' : HeaderStore}
    (h : exec (buildRetryRequest poco request resolvedUrl) s = (.ok (some retryRequest), s')) :
    ∃ beforeUri resolvedUri,
      poco.parseUri request.url = .ok beforeUri ∧
      poco.parseUri retryRequest.url = .ok resolvedUri ∧
      beforeUri.scheme = resolvedUri.scheme ∧
      retryRequest = { request with url := retryRequest.url, headers := retryRequest.headers } ∧
      s.next ≤ retryRequest.headers ∧
      retryRequest.headers < s'.next ∧
      (s'.deref retryRequest.headers).items =
        (s.deref request.headers).items.filter (keepsHeader beforeUri resolvedUri) := by
  unfold buildRetryRequest at h
  -- both URLs are parsed, or there is an exception and no request
  cases hbefore : poco.parseUri request.url with
  | error e =>
    rw [exec_bind_error (by rw [exec_lift, hbefore])] at h
    cases h
  | ok beforeUri =>
    rw [exec_bind_ok (by rw [exec_lift, hbefore])] at h
    cases hafter : poco.parseUri resolvedUrl with
    | error e =>
      rw [exec_bind_error (by rw [exec_lift, hafter])] at h
      cases h
    | ok resolvedUri =>
      rw [exec_bind_ok (by rw [exec_lift, hafter])] at h
      -- under another scheme there is no request
      by_cases hscheme : beforeUri.scheme = resolvedUri.scheme
      · rw [if_neg (by simp [hscheme]), exec_bind_ok (Store.exec_readCell _ _)] at h
        obtain ⟨p, hp⟩ := keepsHeader_eq beforeUri resolvedUri
        obtain ⟨retryHeaders, hadd, hitems⟩ := (s.deref request.headers).addAll_filter p
        rw [← hp] at hadd hitems
        rw [exec_bind_ok (by rw [exec_lift, hadd]), exec_bind_ok (Store.exec_newCell _ _)] at h
        cases hurl : (RequestBuilder.ofRequest request).setUrl poco resolvedUrl with
        | error e =>
          rw [exec_bind_error (by rw [exec_lift, hurl])] at h
          cases h
        | ok builder =>
          have hbuilder : builder = { RequestBuilder.ofRequest request with url := resolvedUrl } := by
            unfold RequestBuilder.setUrl at hurl
            split at hurl
            · cases hurl
            split at hurl
            · cases hurl
              rfl
            · cases hurl
          subst hbuilder
          rw [exec_bind_ok (by rw [exec_lift, hurl])] at h
          cases h
          refine ⟨beforeUri, resolvedUri, rfl, hafter, hscheme, rfl, ?_, ?_, ?_⟩
          · show s.next ≤ (s.alloc retryHeaders).next
            rw [Store.next_alloc]
            exact Nat.le_succ _
          · show (s.alloc retryHeaders).next < (Store.alloc _ _).next
            rw [Store.next_alloc (s.alloc retryHeaders)]
            exact Nat.lt_succ_self _
          · show ((Store.alloc (s.alloc retryHeaders) ((s.alloc retryHeaders).deref s.next)).deref
              (s.alloc retryHeaders).next).items = _
            rw [Store.deref_alloc_next, Store.deref_alloc_next, hitems]
      · rw [if_pos (by simp [hscheme, EnableSchemeChangedRedirect])] at h
        cases h

/-- The next request is the last one at another URL. -/
theorem getRetryRequest_some {poco : Poco} {response : Response} {retryRequest : Request}
    {s s' : HeaderStore}
    (h : exec (getRetryRequest poco response) s = (.ok (some retryRequest), s')) :
    ∃ resolvedUrl,
      exec (buildRetryRequest poco response.request resolvedUrl) s =
        (.ok (some retryRequest), s') := by
  unfold getRetryRequest at h
  split at h
  · cases h
  unfold makeRetryRequest at h
  split at h
  · cases h
  dsimp only at h
  split at h
  · cases h
  split at h
  · cases h
  split at h
  · cases h
  · exact ⟨_, h⟩

theorem keeps_build (poco : Poco) (builder : RequestBuilder) :
    Keeps Store.Extends (builder.build poco) := by
  unfold RequestBuilder.build
  cases builder.headers with
  | none =>
    refine keeps_bind (keeps_pure _) fun items => ?_
    refine keeps_bind (Store.keeps_newCell _) fun headers => ?_
    cases builder.cacheControl with
    | none =>
      exact keeps_bind (keeps_lift _)
        fun _ => keeps_pure _
    | some cacheControl => exact keeps_pure _
  | some headers =>
    refine keeps_bind (Store.keeps_readCell _) fun items => ?_
    refine keeps_bind (Store.keeps_newCell _) fun headers => ?_
    cases builder.cacheControl with
    | none =>
      exact keeps_bind (keeps_lift _)
        fun _ => keeps_pure _
    | some cacheControl => exact keeps_pure _

theorem keeps_buildRetryRequest (poco : Poco) (request : Request) (resolvedUrl : String) :
    Keeps Store.Extends (buildRetryRequest poco request resolvedUrl) := by
  unfold buildRetryRequest
  refine keeps_bind (keeps_lift _) fun beforeUri => ?_
  refine keeps_bind (keeps_lift _) fun resolvedUri => ?_
  split
  · exact keeps_pure _
  refine keeps_bind (Store.keeps_readCell _) fun requestHeaders => ?_
  refine keeps_bind (keeps_lift _) fun retryHeaders => ?_
  refine keeps_bind (Store.keeps_newCell _) fun headers => ?_
  refine keeps_bind (keeps_lift _) fun builder => ?_
  exact keeps_bind (keeps_build poco _) fun _ => keeps_pure _

/-- Making a request for a redirect only adds header lists. -/
theorem keeps_getRetryRequest (poco : Poco) (response : Response) :
    Keeps Store.Extends (getRetryRequest poco response) := by
  unfold getRetryRequest
  split
  · exact keeps_pure _
  unfold makeRetryRequest
  split
  · exact keeps_pure _
  dsimp only
  split
  · exact keeps_pure _
  split
  · exact keeps_pure _
  split
  · exact keeps_pure _
  · exact keeps_buildRetryRequest poco _ _

end HttpEngine

end EasyHttp
