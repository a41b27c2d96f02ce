import EasyHttp.Engine.RedirectChain

/-!
# The caller's request after a call

A caller may execute one request object many times. A call reads and writes the header lists
of the store:

* `hop_frame`, `retryLoop_frame`: of the lists that exist, a call writes the request's own only;
* `executeWithRetry_headers`: what it writes there is the conditional header that its first
  lookup sets;
* `headers_kept_iff`: when a lookup, or a run of calls, leaves the list as it was.
-/

namespace EasyHttp

open HttpConstants HttpCacheStrategy HttpEngine Exec

namespace HttpRequestExecutor

/-! ## What a call writes -/

section
variable {poco : Poco} {hasCache : Bool} {env : Surroundings} {request : Request}
  {s : HeaderStore}

theorem next_le_hop : s.next ≤ (exec (hop poco hasCache env request) s).2.next := by
  by_cases hc : env.cancelled = true
  · exact Nat.le_of_eq (by rw [hop_cancelled hc])
  · rw [Bool.not_eq_true] at hc
    exact Nat.le_trans (CacheDecision.next_le_storeAfter _) (hop_extends hc).1

/-- A hop writes only the request's own header list. -/
theorem hop_frame {p : HeadersPtr} (hp : p < s.next) (hne : p ≠ request.headers) :
    (exec (hop poco hasCache env request) s).2.deref p = s.deref p := by
  by_cases hc : env.cancelled = true
  · rw [hop_cancelled hc]
  · rw [Bool.not_eq_true] at hc
    have hbelow : p < ((cacheDecision poco hasCache env request s).storeAfter request s).next :=
      Nat.lt_of_lt_of_le hp (CacheDecision.next_le_storeAfter _)
    rw [(hop_extends hc).2 p hbelow, CacheDecision.deref_storeAfter_of_ne _ hp hne]

/-- The header that a hop leaves in the request's own list, if it is not cancelled. -/
theorem hop_own (hlive : request.headers < s.next) :
    (exec (hop poco hasCache env request) s).2.deref request.headers =
      if env.cancelled then s.deref request.headers
      else (cacheDecision poco hasCache env request s).headersAfter
        (s.deref request.headers) := by
  by_cases hc : env.cancelled = true
  · rw [hop_cancelled hc, if_pos hc]
  · rw [if_neg hc]
    rw [Bool.not_eq_true] at hc
    have hbelow : request.headers <
        ((cacheDecision poco hasCache env request s).storeAfter request s).next :=
      Nat.lt_of_lt_of_le hlive (CacheDecision.next_le_storeAfter _)
    rw [(hop_extends hc).2 _ hbelow, CacheDecision.deref_storeAfter_own _ hlive]

end

section
variable {poco : Poco} {hasCache : Bool} {env : ℕ → Surroundings}

/-- The store after a hop is that of its round, with the next request's list new. -/
theorem nextHop_store {q q' : LiveRequest} {env : Surroundings}
    (h : nextHop poco hasCache q env = some q') :
    q'.store = (exec (hop poco hasCache env q.request) q.store).2 ∧
      q.store.next ≤ q'.request.headers := by
  obtain ⟨response, hrun⟩ := nextHop_eq_some_iff.mp h
  obtain ⟨_, _, _, _, _, _, hfresh, _, _⟩ := hop_some q.live hrun
  rw [hrun]
  exact ⟨rfl, hfresh⟩

/-- A loop writes none of the lists that exist but the request's own. -/
theorem retryLoop_frame (rounds retryCount : ℕ) (q : LiveRequest) :
    q.store.next ≤
        (exec (retryLoop poco hasCache env rounds retryCount q.request) q.store).2.next ∧
      ∀ p < q.store.next, p ≠ q.request.headers →
        (exec (retryLoop poco hasCache env rounds retryCount q.request) q.store).2.deref p =
          q.store.deref p := by
  induction rounds generalizing retryCount q with
  | zero => exact ⟨Nat.le_refl _, fun _ _ _ => rfl⟩
  | succ rounds ih =>
    cases hnext : nextHop poco hasCache q (env retryCount) with
    | none =>
      rw [retryLoop_of_nextHop_none hnext]
      exact ⟨next_le_hop, fun p hp hne => hop_frame hp hne⟩
    | some q' =>
      obtain ⟨hstore, hfresh⟩ := nextHop_store hnext
      obtain ⟨hle, hframe⟩ := ih (retryCount + 1) q'
      rw [retryLoop_of_nextHop hnext]
      have hmore : q.store.next ≤ q'.store.next := by
        rw [hstore]
        exact next_le_hop
      refine ⟨Nat.le_trans hmore hle, fun p hp hne => ?_⟩
      rw [hframe p (by omega) (by omega), hstore]
      exact hop_frame hp hne

theorem next_le_executeWithRetry (q : LiveRequest) :
    q.store.next ≤ (exec (executeWithRetry poco hasCache env q.request) q.store).2.next :=
  (retryLoop_frame _ _ q).1

/-- Only the first lookup of a call writes into the caller's list. -/
theorem executeWithRetry_headers (poco : Poco) (hasCache : Bool) (env : ℕ → Surroundings)
    (q : LiveRequest) :
    (exec (executeWithRetry poco hasCache env q.request) q.store).2.deref q.request.headers =
      if (env 0).cancelled then q.headers
      else (q.decision poco hasCache (env 0)).headersAfter q.headers := by
  unfold executeWithRetry
  cases hnext : nextHop poco hasCache q (env 0) with
  | none =>
    rw [retryLoop_of_nextHop_none hnext]
    exact hop_own q.live
  | some q' =>
    obtain ⟨hstore, hfresh⟩ := nextHop_store hnext
    have hbelow : q.request.headers < q'.store.next := by
      rw [hstore]
      exact Nat.lt_of_lt_of_le q.live next_le_hop
    have hne : q.request.headers ≠ q'.request.headers :=
      Nat.ne_of_lt (Nat.lt_of_lt_of_le q.live hfresh)
    rw [retryLoop_of_nextHop hnext, (retryLoop_frame _ _ q').2 _ hbelow hne, hstore]
    exact hop_own q.live

end

/-! ## Calls of one request -/

/-- The caller's request after a call. -/
def executeCall (poco : Poco) (hasCache : Bool) (q : LiveRequest) (env : ℕ → Surroundings) :
    Option LiveRequest :=
  some ⟨q.request, (exec (executeWithRetry poco hasCache env q.request) q.store).2,
    Nat.lt_of_lt_of_le q.live (next_le_executeWithRetry q)⟩

/-- A call that goes to the cache and finds a stored response that the server must be asked
about. -/
def callFindsStaleResponse (poco : Poco) (hasCache : Bool) (q : LiveRequest)
    (env : ℕ → Surroundings) : Bool :=
  !(env 0).cancelled && findsStaleResponse poco hasCache (env 0) q.request q.store

/-- Whether the next call will go to the cache. -/
def LiveRequest.isAvailableToCache (q : LiveRequest) : Bool :=
  HttpCacheStrategy.isAvailableToCache q.request q.store

section
variable {poco : Poco} {hasCache : Bool} {q q' : LiveRequest}

/-- The decision depends on the header list only. -/
theorem isAvailableToCache_congr (hrequest : q'.request = q.request)
    (hheaders : q'.headers = q.headers) : q'.isAvailableToCache = q.isAvailableToCache := by
  have hcell : q'.request.getHeaders q'.store = q.request.getHeaders q.store := hheaders
  unfold LiveRequest.isAvailableToCache HttpCacheStrategy.isAvailableToCache Request.hasHeader
  rw [hcell, hrequest]

/-- A list with a conditional header is another one, and its request does not go to the
cache. -/
theorem headers_setConditional {env : Surroundings} {header : ConditionalHeader}
    (hcond : (q.decision poco hasCache env).conditionalHeader = some header)
    (hheaders : q'.headers = q.headers.setConditional header) :
    q'.headers ≠ q.headers ∧ q'.isAvailableToCache = false := by
  have hnot : q.headers.has header.name = false :=
    not_has_of_available (available_of_conditionalHeader hcond) header.conditional
  have hitems : q'.headers.items = q.headers.items ++ [(header.name, header.value)] := by
    rw [hheaders]
    exact Headers.items_setNamed_of_not_has header.conditional.ne_empty hnot
  have hhas : q'.headers.has header.name = true := by
    rw [Headers.has_iff, hitems]
    exact ⟨_, List.mem_append_right _ List.mem_cons_self, rfl⟩
  constructor
  · intro heq
    rw [heq, hnot] at hhas
    cases hhas
  · by_contra havail
    rw [Bool.not_eq_false] at havail
    have hnone : q'.headers.has header.name = false :=
      not_has_of_available havail header.conditional
    rw [hnone] at hhas
    cases hhas

/-- A call either leaves the list as it was or sets a header that keeps all later calls from
the cache. -/
theorem executeCall_headers {env : ℕ → Surroundings}
    (h : executeCall poco hasCache q env = some q') :
    q'.request = q.request ∧
      if callFindsStaleResponse poco hasCache q env then
        q'.headers ≠ q.headers ∧ q'.isAvailableToCache = false
      else q'.headers = q.headers := by
  have hheaders := executeWithRetry_headers poco hasCache env q
  have hrequest : q'.request = q.request := by
    cases h
    rfl
  replace hheaders : q'.headers = if (env 0).cancelled then q.headers
      else (q.decision poco hasCache (env 0)).headersAfter q.headers := by
    cases h
    exact hheaders
  refine ⟨hrequest, ?_⟩
  unfold callFindsStaleResponse
  by_cases hc : (env 0).cancelled = true
  · rw [if_pos hc] at hheaders
    rw [hc, Bool.not_true, Bool.false_and, if_neg Bool.false_ne_true]
    exact hheaders
  rw [if_neg hc, CacheDecision.headersAfter] at hheaders
  rw [Bool.not_eq_true] at hc
  rw [hc, Bool.not_false, Bool.true_and, ← conditionalHeader_isSome]
  cases hcond : (cacheDecision poco hasCache (env 0) q.request q.store).conditionalHeader with
  | none =>
    rw [LiveRequest.decision, hcond] at hheaders
    exact hheaders
  | some header =>
    rw [LiveRequest.decision, hcond] at hheaders
    exact headers_setConditional hcond hheaders

/-- A request that is not available to the cache finds nothing there. -/
theorem not_callFindsStaleResponse {env : ℕ → Surroundings}
    (havail : q.isAvailableToCache = false) :
    callFindsStaleResponse poco hasCache q env = false := by
  unfold LiveRequest.isAvailableToCache at havail
  simp [callFindsStaleResponse, findsStaleResponse, havail]

/-- After a header is set, nothing changes any more. -/
theorem run_of_not_available (havail : q.isAvailableToCache = false)
    (calls : List (ℕ → Surroundings)) :
    ∃ q', Runs.run (executeCall poco hasCache) q calls = some q' ∧
      q'.headers = q.headers ∧ q'.isAvailableToCache = false := by
  induction calls generalizing q with
  | nil => exact ⟨q, rfl, rfl, havail⟩
  | cons env calls ih =>
    rcases hcall : executeCall poco hasCache q env with _ | t
    · cases hcall
    obtain ⟨hrequest, hheaders⟩ := executeCall_headers hcall
    rw [not_callFindsStaleResponse havail, if_neg Bool.false_ne_true] at hheaders
    obtain ⟨q', hrun, hsame, hnot⟩ := ih ((isAvailableToCache_congr hrequest hheaders).trans havail)
    refine ⟨q', ?_, hsame.trans hheaders, hnot⟩
    rw [Runs.run, hcall]
    exact hrun

/-- Calls of one request leave its headers, and its decision, as they were exactly if none
finds a stored response that the server must be asked about. -/
theorem run_headers_iff (havail : q.isAvailableToCache = true)
    (calls : List (ℕ → Surroundings)) :
    ∃ q', Runs.run (executeCall poco hasCache) q calls = some q' ∧
      (q'.headers = q.headers ↔ Runs.EveryStep (executeCall poco hasCache)
        (fun q env => callFindsStaleResponse poco hasCache q env = false) q calls) ∧
      (q'.isAvailableToCache = true ↔ Runs.EveryStep (executeCall poco hasCache)
        (fun q env => callFindsStaleResponse poco hasCache q env = false) q calls) := by
  induction calls generalizing q with
  | nil => exact ⟨q, rfl, by simp [Runs.EveryStep], by simp [Runs.EveryStep, havail]⟩
  | cons env calls ih =>
    rcases hcall : executeCall poco hasCache q env with _ | t
    · cases hcall
    obtain ⟨hrequest, hheaders⟩ := executeCall_headers hcall
    rw [Runs.run, Runs.EveryStep, hcall]
    by_cases hstale : callFindsStaleResponse poco hasCache q env = true
    · -- the list has changed, and stays as it is now
      rw [if_pos hstale] at hheaders
      obtain ⟨q', hrun, hsame, hnot⟩ := run_of_not_available hheaders.2 calls
      refine ⟨q', hrun, ?_, ?_⟩
      · rw [hsame]
        simp [hheaders.1, hstale]
      · simp [hnot, hstale]
    · rw [if_neg hstale] at hheaders
      rw [Bool.not_eq_true] at hstale
      obtain ⟨q', hrun, hkept, hagain⟩ :=
        ih ((isAvailableToCache_congr hrequest hheaders).trans havail)
      rw [hheaders] at hkept
      refine ⟨q', hrun, ?_, ?_⟩
      · rw [hkept]
        simp [hstale]
      · rw [hagain]
        simp [hstale]

end

/-! ## The request after one lookup and after many calls -/

/-- The list of the caller's request after the constructor has run on a stored response. -/
theorem construct_headers_iff (poco : Poco) {q : LiveRequest}
    (havail : q.isAvailableToCache = true) (cacheResponse : Response) (nowAtEpoch : UInt64) :
    (exec (construct poco q.request (some cacheResponse) nowAtEpoch) q.store).2.deref
        q.request.headers = q.headers ↔
      needsValidation poco q.request cacheResponse nowAtEpoch = false := by
  have hrun := exec_resolve_decision poco q.request (prepare poco cacheResponse nowAtEpoch) q.store
  show (exec (resolveCacheResponseAndNetworkRequest poco q.request
    (prepare poco cacheResponse nowAtEpoch)) q.store).2.deref q.request.headers = _ ↔ _
  rw [hrun, ← strategyDecision_conditionalHeader]
  show (CacheDecision.storeAfter _ _ _).deref _ = _ ↔ _
  rw [CacheDecision.deref_storeAfter_own _ q.live, CacheDecision.headersAfter]
  cases (strategyDecision poco q.request
      (prepare poco cacheResponse nowAtEpoch)).conditionalHeader with
  | none => exact ⟨fun _ => rfl, fun _ => rfl⟩
  | some header =>
    have hnot : q.headers.has header.name = false := not_has_of_available havail header.conditional
    have hitems : (q.headers.setConditional header).items =
        q.headers.items ++ [(header.name, header.value)] :=
      Headers.items_setNamed_of_not_has header.conditional.ne_empty hnot
    refine ⟨fun heq => ?_, fun hsome => ?_⟩
    · replace heq : q.headers.setConditional header = q.headers := heq
      rw [heq] at hitems
      simp at hitems
    · cases hsome

/-- For a request that goes to the cache: the constructor leaves the header list as it was
exactly if the server need not be asked about the stored response; and the list, and with it
the decision to go to the cache, is the same after any number of calls exactly if no call finds
such a response. -/
theorem headers_kept_iff (poco : Poco) {q : LiveRequest} (havail : q.isAvailableToCache = true) :
    (∀ cacheResponse nowAtEpoch,
      (exec (construct poco q.request (some cacheResponse) nowAtEpoch) q.store).2.deref
          q.request.headers = q.headers ↔
        needsValidation poco q.request cacheResponse nowAtEpoch = false) ∧
    ∀ hasCache calls, ∃ q', Runs.run (executeCall poco hasCache) q calls = some q' ∧
      (q'.headers = q.headers ↔ Runs.EveryStep (executeCall poco hasCache)
        (fun q env => callFindsStaleResponse poco hasCache q env = false) q calls) ∧
      (q'.isAvailableToCache = true ↔ Runs.EveryStep (executeCall poco hasCache)
        (fun q env => callFindsStaleResponse poco hasCache q env = false) q calls) :=
  ⟨construct_headers_iff poco havail, fun _ => run_headers_iff havail⟩

theorem cacheControl_ne_empty : HeaderNames.CacheControl ≠ "" := by decide

/-- The response of `staleMetadata` with a lifetime of an hour. -/
def lastingMetadata : HttpCacheMetadata :=
  { staleMetadata with
    responseHeaders := staleMetadata.responseHeaders.map fun headers =>
      headers.addNamed HeaderNames.CacheControl "max-age=3600" cacheControl_ne_empty }

/-- A request that is answered twice by a fresh stored response. -/
theorem headers_kept_fresh :
    (∃ cacheResponse, HttpCacheInternal.createResponseFromCacheMetadata Poco.plain
        (getRequest "http://a.com/" Headers.empty).request lastingMetadata = .ok cacheResponse ∧
      (exec (construct Poco.plain (getRequest "http://a.com/" Headers.empty).request
        (some cacheResponse) 1000) (getRequest "http://a.com/" Headers.empty).store).2.deref
          (getRequest "http://a.com/" Headers.empty).request.headers =
        (getRequest "http://a.com/" Headers.empty).headers) ∧
    ∃ q', Runs.run (executeCall Poco.plain true) (getRequest "http://a.com/" Headers.empty)
        [fun _ => redirected "http://a.com/b" (some lastingMetadata),
          fun _ => redirected "http://a.com/b" (some lastingMetadata)] = some q' ∧
      q'.headers = Headers.empty ∧ q'.isAvailableToCache = true := by
  have havail : (getRequest "http://a.com/" Headers.empty).isAvailableToCache = true := by decide
  obtain ⟨hconstruct, hcalls⟩ := headers_kept_iff Poco.plain havail
  obtain ⟨q', hrun, hkept, hdecision⟩ := hcalls true
    [fun _ => redirected "http://a.com/b" (some lastingMetadata),
      fun _ => redirected "http://a.com/b" (some lastingMetadata)]
  have hfresh : Runs.EveryStep (executeCall Poco.plain true)
      (fun q env => callFindsStaleResponse Poco.plain true q env = false)
      (getRequest "http://a.com/" Headers.empty)
      [fun _ => redirected "http://a.com/b" (some lastingMetadata),
        fun _ => redirected "http://a.com/b" (some lastingMetadata)] :=
    ⟨by decide +kernel, by decide +kernel, trivial⟩
  refine ⟨⟨_, rfl, (hconstruct _ 1000).mpr (by decide +kernel)⟩, q', hrun, hkept.mpr hfresh,
    hdecision.mpr hfresh⟩

/-- The constructor sets `If-None-Match` in the caller's list for a stale response with an
`ETag`, and the second call of the same request does not go to the cache. -/
theorem second_call_not_available :
    (getRequest "http://a.com/" Headers.empty).isAvailableToCache = true ∧
      (∃ cacheResponse, HttpCacheInternal.createResponseFromCacheMetadata Poco.plain
          (getRequest "http://a.com/" Headers.empty).request staleMetadata = .ok cacheResponse ∧
        (exec (construct Poco.plain (getRequest "http://a.com/" Headers.empty).request
          (some cacheResponse) 1000) (getRequest "http://a.com/" Headers.empty).store).2.deref
            (getRequest "http://a.com/" Headers.empty).request.headers ≠
          (getRequest "http://a.com/" Headers.empty).headers) ∧
      ∃ q', executeCall Poco.plain true (getRequest "http://a.com/" Headers.empty)
          (fun _ => redirected "http://a.com/b" (some staleMetadata)) = some q' ∧
        q'.headers.items = [(HeaderNames.IfNoneMatch, "v1")] ∧
        q'.isAvailableToCache = false := by
  refine ⟨by decide, ⟨_, rfl, ?_⟩, _, rfl, ?_, ?_⟩
  · decide +kernel
  · decide +kernel
  · decide +kernel

end HttpRequestExecutor

end EasyHttp
