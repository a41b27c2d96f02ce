import EasyHttp.Engine.HttpEngineTheorems
import EasyHttp.Library.Runs

/-!
# Chains of redirects

`nextHop` leads from the request of a hop to the request that its redirect response makes;
a run of `nextHop` is a chain of redirects.

* `hop_some`, `hop_extends`: what a hop leaves in the store and in the next request;
* `retryLoop_of_nextHop`, `retryLoop_of_nextHop_none`: the loop of `executeWithRetry` is a run
  of `nextHop` followed by a hop whose response is returned;
* `chain_headers`: the header list at the end of a chain.
-/

namespace EasyHttp

open HttpConstants HttpCacheStrategy HttpEngine Exec

/-! ## Origins -/

/-- What must be the same for a request to stay at one server. -/
structure Origin where
  scheme : String
  host : String
  port : UInt16
deriving DecidableEq

/-- Scheme, host and port. -/
def Uri.origin (uri : Uri) : Origin := ⟨uri.scheme, uri.host, uri.port⟩

/-- The origin of a URL, `none` when it is not valid. -/
def originOf (poco : Poco) (url : String) : Option Origin :=
  match poco.uri url with
  | .ok uri => some uri.origin
  | .error _ => none

/-- The origin of a URL is that of its parts. -/
theorem originOf_of_parseUri {poco : Poco} {url : String} {uri : Uri}
    (h : poco.parseUri url = .ok uri) : originOf poco url = some uri.origin := by
  unfold Poco.parseUri at h
  unfold originOf
  cases hok : poco.uri url with
  | ok uri' =>
    rw [hok] at h
    cases h
    rfl
  | error message =>
    rw [hok] at h
    cases h

/-- The items without `Authorization`. -/
def withoutAuthorization (items : List (String × String)) : List (String × String) :=
  items.filter fun e => !icompare e.1 HeaderNames.Authorization

/-- The items that go along: all of them as long as the origin stays. -/
def carriedHeaders (sameOrigin : Bool) (items : List (String × String)) :
    List (String × String) :=
  if sameOrigin then items else withoutAuthorization items

/-- What is left out is left out once. -/
theorem withoutAuthorization_idem (items : List (String × String)) :
    withoutAuthorization (withoutAuthorization items) = withoutAuthorization items := by
  unfold withoutAuthorization
  rw [List.filter_filter]
  simp

/-- Over two hops the headers are carried if they are carried over both. -/
theorem carriedHeaders_carriedHeaders (b c : Bool) (items : List (String × String)) :
    carriedHeaders b (carriedHeaders c items) = carriedHeaders (c && b) items := by
  cases b <;> cases c <;> simp [carriedHeaders, withoutAuthorization_idem]

/-- Each part of a list is carried by itself. -/
theorem carriedHeaders_append (b : Bool) (items rest : List (String × String)) :
    carriedHeaders b (items ++ rest) = carriedHeaders b items ++ carriedHeaders b rest := by
  cases b <;> simp [carriedHeaders, withoutAuthorization]

/-- The filter of the code carries headers within one origin. -/
theorem filter_keepsHeader (before after : Uri) (items : List (String × String)) :
    items.filter (keepsHeader before after) =
      carriedHeaders (decide (before.origin = after.origin)) items := by
  by_cases hsame : before.origin = after.origin
  · have hkeep : keepsHeader before after = fun _ => true := by
      funext e
      simp only [Uri.origin, Origin.mk.injEq] at hsame
      simp [keepsHeader, hsame]
    simp [hkeep, hsame, carriedHeaders]
  · have hkeep : keepsHeader before after =
        fun e => !icompare e.1 HeaderNames.Authorization := by
      funext e
      simp only [Uri.origin, Origin.mk.injEq] at hsame
      simp only [keepsHeader]
      by_cases hauth : icompare e.1 HeaderNames.Authorization = true
      · rw [if_pos hauth, hauth, Bool.not_true, ← Bool.not_eq_true]
        simpa [and_assoc] using hsame
      · rw [if_neg hauth, Bool.eq_false_iff.mpr hauth, Bool.not_false]
    simp [hkeep, hsame, carriedHeaders, withoutAuthorization]

/-! ## One hop -/

namespace HttpRequestExecutor

section
variable {poco : Poco} {hasCache : Bool} {env : Surroundings} {request : Request}
  {s : HeaderStore}

/-- A cancelled call changes nothing. -/
theorem hop_cancelled (hc : env.cancelled = true) :
    exec (hop poco hasCache env request) s =
      (.error (.execution "http request is cancelled."), s) := by
  unfold hop
  rw [if_pos hc]
  rfl

/-- A hop without a cancel is a round and its next request. -/
theorem hop_of_not_cancelled (hc : env.cancelled = false) :
    exec (hop poco hasCache env request) s =
      exec (execute poco hasCache env request >>= fun userResponse =>
        getRetryRequest poco userResponse >>= fun retryRequest =>
          if retryRequest.isSome then
            lift env.readAll >>= fun _ => pure (userResponse, retryRequest)
          else pure (userResponse, retryRequest)) s := by
  unfold hop
  rw [if_neg (by simp [hc])]

/-- After the lookup, a hop only adds header lists. -/
theorem hop_extends (hc : env.cancelled = false) :
    ((cacheDecision poco hasCache env request s).storeAfter request s).Extends
      (exec (hop poco hasCache env request) s).2 := by
  rw [hop_of_not_cancelled hc]
  have hstore := exec_execute_store poco hasCache env request s
  rcases hrun : exec (execute poco hasCache env request) s with ⟨r, s₁⟩
  rw [hrun] at hstore
  subst hstore
  cases r with
  | error e =>
    rw [exec_bind_error hrun]
    exact Store.Extends.refl _
  | ok userResponse =>
    rw [exec_bind_ok hrun]
    refine keeps_bind (keeps_getRetryRequest poco userResponse) (fun retryRequest => ?_) _
    split
    · exact keeps_bind (keeps_lift _) fun _ => keeps_pure _
    · exact keeps_pure _

/-- A redirect that is followed leads to a request of the same scheme, with a header list of
its own: the list that the hop's request has after the lookup, as far as it is kept. -/
theorem hop_some {response : Response} {retryRequest : Request} {s' : HeaderStore}
    (hlive : request.headers < s.next)
    (h : exec (hop poco hasCache env request) s = (.ok (response, some retryRequest), s')) :
    ∃ beforeUri resolvedUri,
      poco.parseUri request.url = .ok beforeUri ∧
      poco.parseUri retryRequest.url = .ok resolvedUri ∧
      beforeUri.scheme = resolvedUri.scheme ∧
      retryRequest = { request with url := retryRequest.url, headers := retryRequest.headers } ∧
      s.next ≤ retryRequest.headers ∧
      retryRequest.headers < s'.next ∧
      (s'.deref retryRequest.headers).items =
        ((cacheDecision poco hasCache env request s).headersAfter
          (s.deref request.headers)).items.filter (keepsHeader beforeUri resolvedUri) := by
  -- a cancelled hop has no next request
  have hc : env.cancelled = false := by
    by_contra hc
    rw [Bool.not_eq_false] at hc
    rw [hop_cancelled hc] at h
    cases h
  rw [hop_of_not_cancelled hc] at h
  have hstore := exec_execute_store poco hasCache env request s
  rcases hrun : exec (execute poco hasCache env request) s with ⟨r, s₁⟩
  rw [hrun] at hstore
  cases r with
  | error e =>
    rw [exec_bind_error hrun] at h
    cases h
  | ok userResponse =>
    rw [exec_bind_ok hrun] at h
    -- a round that answers, and a request that follows from the answer
    rcases hretry : exec (getRetryRequest poco userResponse) s₁ with ⟨r, s₂⟩
    cases r with
    | error e =>
      rw [exec_bind_error hretry] at h
      cases h
    | ok next =>
      rw [exec_bind_ok hretry] at h
      cases next with
      | none => cases h
      | some next =>
        -- reading the body may throw, but it changes no header list
        replace h : exec (lift env.readAll >>= fun _ => pure (userResponse, some next)) s₂ =
          (.ok (response, some retryRequest), s') := h
        cases hread : env.readAll with
        | error e =>
          rw [exec_bind_error (by rw [exec_lift, hread])] at h
          cases h
        | ok u =>
          rw [exec_bind_ok (by rw [exec_lift, hread])] at h
          cases h
          obtain ⟨resolvedUrl, hbuild⟩ := getRetryRequest_some hretry
          obtain ⟨hrequest, hbelow, hitems⟩ := execute_request_headers hlive (congrArg Prod.fst hrun)
          rw [hrequest] at hbuild
          obtain ⟨beforeUri, resolvedUri, hbefore, hafter, hscheme, hsame, hfresh, hnext, hfilter⟩ :=
            buildRetryRequest_some hbuild
          subst hstore
          refine ⟨beforeUri, resolvedUri, hbefore, hafter, hscheme, hsame, ?_, hnext, ?_⟩
          · exact Nat.le_trans (CacheDecision.next_le_storeAfter _) hfresh
          · rw [hfilter, ← hitems]

end

/-! ## Requests with their header lists -/

/-- A request together with the store in which its header list is. -/
structure LiveRequest where
  request : Request
  store : HeaderStore
  live : request.headers < store.next

/-- The header list of the request. -/
def LiveRequest.headers (q : LiveRequest) : Headers := q.request.getHeaders q.store

/-- How the lookup for the request ends. -/
def LiveRequest.decision (poco : Poco) (hasCache : Bool) (q : LiveRequest) (env : Surroundings) :
    CacheDecision :=
  cacheDecision poco hasCache env q.request q.store

/-- The request that the response of a hop makes, if it is a redirect that is followed. -/
def nextHop (poco : Poco) (hasCache : Bool) (q : LiveRequest) (env : Surroundings) :
    Option LiveRequest :=
  match h : exec (hop poco hasCache env q.request) q.store with
  | (.ok (_, some retryRequest), s') =>
    some ⟨retryRequest, s', by
      obtain ⟨_, _, _, _, _, _, _, hlive, _⟩ := hop_some q.live h
      exact hlive⟩
  | _ => none

section
variable {poco : Poco} {hasCache : Bool} {q q' : LiveRequest} {env : Surroundings}

/-- A hop goes on with the request that its round asks for. -/
theorem nextHop_eq_some_iff :
    nextHop poco hasCache q env = some q' ↔
      ∃ response, exec (hop poco hasCache env q.request) q.store =
        (.ok (response, some q'.request), q'.store) := by
  unfold nextHop
  split
  · rename_i response retryRequest s' h
    constructor
    · intro heq
      cases heq
      exact ⟨response, h⟩
    · intro hex
      obtain ⟨response', heq⟩ := hex
      obtain ⟨request, store, live⟩ := q'
      have hsame := h.symm.trans heq
      cases hsame
      rfl
  · rename_i hno
    constructor
    · intro heq
      cases heq
    · intro hex
      obtain ⟨response, heq⟩ := hex
      exact (hno _ _ _ heq).elim

/-- The next request in terms of the request of the hop. -/
theorem nextHop_some (h : nextHop poco hasCache q env = some q') :
    ∃ before after,
      originOf poco q.request.url = some before ∧
      originOf poco q'.request.url = some after ∧
      q'.headers.items = carriedHeaders (decide (before = after))
        ((q.decision poco hasCache env).headersAfter q.headers).items := by
  obtain ⟨response, hrun⟩ := nextHop_eq_some_iff.mp h
  obtain ⟨beforeUri, resolvedUri, hbefore, hafter, _, _, _, _, hitems⟩ := hop_some q.live hrun
  refine ⟨beforeUri.origin, resolvedUri.origin, originOf_of_parseUri hbefore,
    originOf_of_parseUri hafter, ?_⟩
  rw [← filter_keepsHeader]
  exact hitems

end

/-! ## The loop -/

section
variable {poco : Poco} {hasCache : Bool} {env : ℕ → Surroundings} {q : LiveRequest}

/-- A redirect that is followed takes the loop to its next round. -/
theorem retryLoop_of_nextHop {q' : LiveRequest} {retryCount : ℕ}
    (h : nextHop poco hasCache q (env retryCount) = some q') (rounds : ℕ) :
    exec (retryLoop poco hasCache env (rounds + 1) retryCount q.request) q.store =
      exec (retryLoop poco hasCache env rounds (retryCount + 1) q'.request) q'.store := by
  obtain ⟨response, hrun⟩ := nextHop_eq_some_iff.mp h
  rw [retryLoop, exec_bind_ok hrun]

/-- Otherwise the loop ends with what the hop returns or throws. -/
theorem retryLoop_of_nextHop_none {retryCount : ℕ}
    (h : nextHop poco hasCache q (env retryCount) = none) (rounds : ℕ) :
    exec (retryLoop poco hasCache env (rounds + 1) retryCount q.request) q.store =
      let (result, s) := exec (hop poco hasCache (env retryCount) q.request) q.store
      (result.map Prod.fst, s) := by
  rcases hrun : exec (hop poco hasCache (env retryCount) q.request) q.store with ⟨r, s⟩
  rw [retryLoop]
  cases r with
  | error e =>
    rw [exec_bind_error hrun]
    rfl
  | ok p =>
    obtain ⟨response, retryRequest⟩ := p
    rw [exec_bind_ok hrun]
    cases retryRequest with
    | none => rfl
    | some retryRequest =>
      obtain ⟨_, _, _, _, _, _, _, hlive, _⟩ := hop_some q.live hrun
      have hsome : nextHop poco hasCache q (env retryCount) = some ⟨retryRequest, s, hlive⟩ :=
        nextHop_eq_some_iff.mpr ⟨response, hrun⟩
      rw [h] at hsome
      cases hsome

end

/-! ## Chains -/

section
variable (poco : Poco) (hasCache : Bool)

/-- The requests of the hops of a chain, from the first on. -/
def requests (q : LiveRequest) : List Surroundings → List LiveRequest
  | [] => [q]
  | env :: envs => q :: match nextHop poco hasCache q env with
    | some q' => requests q' envs
    | none => []

/-- All hops of the chain go to the origin of the first. -/
def sameOrigins (q : LiveRequest) (envs : List Surroundings) : Bool :=
  (requests poco hasCache q envs).all fun q' =>
    originOf poco q'.request.url = originOf poco q.request.url

/-- The conditional headers that the lookups of the chain set, in order. -/
def validators (q : LiveRequest) : List Surroundings → List (String × String)
  | [] => []
  | env :: envs =>
    ((q.decision poco hasCache env).conditionalHeader.toList.map fun h => (h.name, h.value))
      ++ match nextHop poco hasCache q env with
        | some q' => validators q' envs
        | none => []

variable {poco hasCache}

/-- The first request of a chain is one of its requests. -/
theorem requests_ne_nil (q : LiveRequest) (envs : List Surroundings) :
    q ∈ requests poco hasCache q envs := by
  cases envs with
  | nil => exact List.mem_singleton.mpr rfl
  | cons env envs => exact List.mem_cons_self

/-- A chain stays within one origin if its first hop and the rest do. -/
theorem sameOrigins_cons {q q' : LiveRequest} {env : Surroundings} {before after : Origin}
    (hnext : nextHop poco hasCache q env = some q')
    (hbefore : originOf poco q.request.url = some before)
    (hafter : originOf poco q'.request.url = some after) (envs : List Surroundings) :
    sameOrigins poco hasCache q (env :: envs) =
      (decide (before = after) && sameOrigins poco hasCache q' envs) := by
  unfold sameOrigins
  rw [requests, hnext, List.all_cons, decide_eq_true rfl, Bool.true_and, hbefore, hafter]
  by_cases hsame : before = after
  · rw [hsame, decide_eq_true rfl, Bool.true_and]
  · rw [decide_eq_false hsame, Bool.false_and, List.all_eq_false]
    refine ⟨q', requests_ne_nil q' envs, ?_⟩
    rw [hafter]
    simpa [eq_comm] using hsame

/-- A conditional header is set only where there was none, so it comes last. -/
theorem headersAfter_items (q : LiveRequest) (env : Surroundings) :
    ((q.decision poco hasCache env).headersAfter q.headers).items =
      q.headers.items ++ (q.decision poco hasCache env).conditionalHeader.toList.map
        fun h => (h.name, h.value) := by
  unfold CacheDecision.headersAfter
  cases hcond : (q.decision poco hasCache env).conditionalHeader with
  | none => simp
  | some header =>
    have havail : isAvailableToCache q.request q.store = true :=
      available_of_conditionalHeader hcond
    have hnot : q.headers.has header.name = false :=
      not_has_of_available havail header.conditional
    exact Headers.items_setNamed_of_not_has header.conditional.ne_empty hnot

/-- A conditional header is no credentials. -/
theorem not_authorization (header : ConditionalHeader) :
    icompare header.name HeaderNames.Authorization = false := by
  rcases header.conditional with hname | hname <;> rw [hname] <;> decide

/-- Conditional headers are kept across origins. -/
theorem carriedHeaders_conditional (b : Bool) (header : Option ConditionalHeader) :
    carriedHeaders b (header.toList.map fun h => (h.name, h.value)) =
      header.toList.map fun h => (h.name, h.value) := by
  cases header with
  | none => cases b <;> rfl
  | some header =>
    cases b with
    | true => rfl
    | false =>
      show withoutAuthorization [(header.name, header.value)] = [(header.name, header.value)]
      rw [withoutAuthorization, List.filter_cons_of_pos (by simp [not_authorization header])]
      rfl

/-- At the end of a chain the request has the headers of the first request, without
`Authorization` if the origin changed, and every conditional header set on the way. -/
theorem chain_headers {q q' : LiveRequest} {envs : List Surroundings}
    (hrun : Runs.run (nextHop poco hasCache) q envs = some q') :
    q'.headers.items =
      carriedHeaders (sameOrigins poco hasCache q envs) q.headers.items
        ++ validators poco hasCache q envs := by
  induction envs generalizing q with
  | nil =>
    cases hrun
    have hsame : sameOrigins poco hasCache q' [] = true := by
      simp [sameOrigins, requests]
    rw [hsame, validators, List.append_nil]
    rfl
  | cons env envs ih =>
    obtain ⟨t, hnext, hrest⟩ := Runs.run_cons hrun
    obtain ⟨before, after, hbefore, hafter, hitems⟩ := nextHop_some hnext
    rw [ih hrest, hitems, headersAfter_items, carriedHeaders_append, carriedHeaders_conditional,
      carriedHeaders_append, carriedHeaders_carriedHeaders, carriedHeaders_conditional,
      sameOrigins_cons hnext hbefore hafter, validators, hnext, List.append_assoc]

/-- The engine's own headers are no credentials. -/
theorem validators_name {q : LiveRequest} {envs : List Surroundings} {e : String × String}
    (he : e ∈ validators poco hasCache q envs) :
    icompare e.1 HeaderNames.Authorization = false := by
  induction envs generalizing q with
  | nil => exact (List.not_mem_nil he).elim
  | cons env envs ih =>
    rw [validators, List.mem_append, List.mem_map] at he
    rcases he with ⟨header, _, rfl⟩ | he
    · exact not_authorization header
    · cases hnext : nextHop poco hasCache q env with
      | none =>
        rw [hnext] at he
        exact (List.not_mem_nil he).elim
      | some t =>
        rw [hnext] at he
        exact ih he

/-- No lookup of the chain sets a header if none finds a response to ask about. -/
theorem validators_eq_nil_iff (q : LiveRequest) (envs : List Surroundings) :
    validators poco hasCache q envs = [] ↔
      Runs.EveryStep (nextHop poco hasCache)
        (fun q env => findsStaleResponse poco hasCache env q.request q.store = false) q envs := by
  induction envs generalizing q with
  | nil => simp [validators, Runs.EveryStep]
  | cons env envs ih =>
    rw [validators, Runs.EveryStep, List.append_eq_nil_iff, List.map_eq_nil_iff,
      Option.toList_eq_nil_iff, LiveRequest.decision, conditionalHeader_eq_none_iff]
    refine and_congr_right fun _ => ?_
    cases nextHop poco hasCache q env with
    | none => simp
    | some t => exact ih t

end

/-! ## Redirects carry what the user set -/

/-- The request at the end of a chain has the user's header list, without `Authorization` if
the origin changed, exactly if no lookup on the way found a stored response that the server
had to be asked about. -/
theorem chain_carriesUserHeaders_iff {poco : Poco} {hasCache : Bool} {q q' : LiveRequest}
    {envs : List Surroundings} (hrun : Runs.run (nextHop poco hasCache) q envs = some q') :
    q'.headers.items = carriedHeaders (sameOrigins poco hasCache q envs) q.headers.items ↔
      Runs.EveryStep (nextHop poco hasCache)
        (fun q env => findsStaleResponse poco hasCache env q.request q.store = false) q envs := by
  rw [chain_headers hrun, List.append_right_eq_self, validators_eq_nil_iff]

/-- A `GET` request alone in its store. -/
def getRequest (url : String) (headers : Headers) : LiveRequest where
  request := {
    method := .get
    url := url
    tag := none
    headers := 0
    cacheControl := {}
    body := none }
  store := ⟨[headers]⟩
  live := Nat.zero_lt_one

/-- A hop at second 1000 that is answered with a redirect. -/
def redirected (location : String) (metadata : Option HttpCacheMetadata) : Surroundings where
  cancelled := false
  nowAtEpoch := 1000
  metadata := metadata
  dataStream := true
  network := .ok {
    status := 302
    reason := "Found"
    headers := [(HeaderNames.Location, location)]
    hasContentLength := true
    contentLength := 0
    sentRequestSec := 1000
    receivedResponseSec := 1000 }
  readAll := .ok ()

/-- A response stored at second 0 with an `ETag` and no lifetime. -/
def staleMetadata : HttpCacheMetadata where
  key := "key"
  url := "http://a.com/"
  httpMethod := .get
  statusCode := 200
  statusMessage := "OK"
  responseHeaders := some (Headers.empty.addNamed HeaderNames.ETag "v1" (by decide))
  responseBodySize := 0
  sentRequestAtEpoch := 0
  receivedResponseAtEpoch := 0

/-- A request with credentials. -/
def requestWithCredentials (credentials : String) : LiveRequest :=
  getRequest "http://a.com/"
    (Headers.empty.addNamed HeaderNames.Authorization credentials (by decide))

/-- A redirect to the same server and then one to another. -/
def redirectedToOtherHost : List Surroundings :=
  [redirected "http://a.com/b" none, redirected "http://b.com/" none]

theorem chain_carriesUserHeaders_other_host :
    ∃ q', Runs.run (nextHop Poco.plain true) (requestWithCredentials "c") redirectedToOtherHost =
        some q' ∧
      (q'.headers.items = carriedHeaders
          (sameOrigins Poco.plain true (requestWithCredentials "c") redirectedToOtherHost)
          (requestWithCredentials "c").headers.items ↔
        Runs.EveryStep (nextHop Poco.plain true)
          (fun q env => findsStaleResponse Poco.plain true env q.request q.store = false)
          (requestWithCredentials "c") redirectedToOtherHost) := by
  have hsome : (Runs.run (nextHop Poco.plain true) (requestWithCredentials "c")
      redirectedToOtherHost).isSome = true := by
    decide +kernel
  obtain ⟨q', hrun⟩ := Option.isSome_iff_exists.mp hsome
  exact ⟨q', hrun, chain_carriesUserHeaders_iff hrun⟩

/-- The `If-None-Match` set for the response stored under the first URL goes to the second. -/
theorem stale_redirect_not_carriesUserHeaders :
    ∃ q', Runs.run (nextHop Poco.plain true) (getRequest "http://a.com/" Headers.empty)
        [redirected "http://a.com/b" (some staleMetadata)] = some q' ∧
      q'.headers.items = [(HeaderNames.IfNoneMatch, "v1")] ∧
      q'.headers.items ≠ carriedHeaders
        (sameOrigins Poco.plain true (getRequest "http://a.com/" Headers.empty)
          [redirected "http://a.com/b" (some staleMetadata)])
        (getRequest "http://a.com/" Headers.empty).headers.items := by
  have hitems : (Runs.run (nextHop Poco.plain true) (getRequest "http://a.com/" Headers.empty)
      [redirected "http://a.com/b" (some staleMetadata)]).map (fun q => q.headers.items) =
        some [(HeaderNames.IfNoneMatch, "v1")] := by
    decide +kernel
  obtain ⟨q', hrun, hq'⟩ := Option.map_eq_some_iff.mp hitems
  refine ⟨q', hrun, hq', ?_⟩
  rw [hq']
  show _ ≠ carriedHeaders _ []
  simp [carriedHeaders, withoutAuthorization]

end HttpRequestExecutor

end EasyHttp
