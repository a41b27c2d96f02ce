import EasyHttp.Cache.HttpCacheStrategyFreshness

/-!
# The outcome of `HttpCacheStrategy`

The constructor ends with a request to send, a stored response to use, or both, in which case the
request is conditional.

* `Outcome`: which of them there are, and the headers of the request;
* `construct_outcome`: every constructed strategy is so;
* `CountsAsExpired`: a stored response that has no time to live and is only served stale;
* `countsAsExpired_iff`: when an `Expires` that is no date makes it one.
-/

namespace EasyHttp.HttpCacheStrategy

open HttpConstants Exec

variable {poco : Poco} {request : Request} {response : Response} {now : UInt64}

/-! ## Both, one or none -/

/-- By `no-cache`, or by the comparison of its age. -/
def NeedsRevalidation (poco : Poco) (request : Request) (response : Response) (now : UInt64) :
    Prop :=
  isResponseNoCache (prepare poco response now) = true ∨
    ∃ c, ageCondition poco request.cacheControl (prepare poco response now) = .ok c ∧
      c.holds = false

/-- The server can be asked whether the response is still valid. -/
def HasValidator (response : Response) : Prop :=
  response.hasHeader HeaderNames.ETag = true ∨ response.hasHeader HeaderNames.LastModified = true ∨
    response.hasHeader HeaderNames.Date = true

/-- The headers of a request for a stored response: one header is added. -/
def IsConditionalFor (stored : Response) (before after : Headers) : Prop :=
  if stored.hasHeader HeaderNames.ETag = true then
    after.items =
      before.items ++ [(HeaderNames.IfNoneMatch, stored.getHeaderValue HeaderNames.ETag "")]
  else if stored.hasHeader HeaderNames.LastModified = true then
    after.items = before.items ++
      [(HeaderNames.IfModifiedSince, stored.getHeaderValue HeaderNames.LastModified "")]
  else
    after.items =
      before.items ++ [(HeaderNames.IfModifiedSince, stored.getHeaderValue HeaderNames.Date "")]

/-- What a strategy is for a request and what is stored, with the header lists before and after. -/
structure Outcome (poco : Poco) (request : Request) (stored : Option Response) (now : UInt64)
    (s s' : HeaderStore) (strategy : HttpCacheStrategy) : Prop where
  onlyIfCached : request.cacheControl.onlyIfCached = true → strategy.networkRequest = none
  some : request.cacheControl.onlyIfCached = false →
    strategy.networkRequest.isSome ∨ strategy.cacheResponse.isSome
  both : strategy.networkRequest.isSome ∧ strategy.cacheResponse.isSome ↔
    ∃ response, stored = .some response ∧ NeedsRevalidation poco request response now ∧
      request.cacheControl.onlyIfCached = false ∧ HasValidator response
  /-- neither of the two conditional headers is in the request itself -/
  conditional : ∀ networkRequest response, strategy.networkRequest = .some networkRequest →
    strategy.cacheResponse.isSome → stored = .some response →
      IsConditionalFor response (request.getHeaders s) (networkRequest.getHeaders s') ∧
        request.hasHeader s HeaderNames.IfNoneMatch = false ∧
          request.hasHeader s HeaderNames.IfModifiedSince = false
  unconditional : ∀ networkRequest, strategy.networkRequest = .some networkRequest →
    strategy.cacheResponse = none → networkRequest.getHeaders s' = request.getHeaders s

/-- The three headers are those a conditional request is made of. -/
theorem hasValidator_iff {stored : Response} :
    HasValidator stored ↔ (conditionalRequestHeader stored).isSome := by
  unfold HasValidator conditionalRequestHeader
  split
  · simp [*]
  split
  · simp [*]
  split
  · simp [*]
  · simp [*]

/-- A response that is not fresh is one that needs revalidation. -/
theorem isFresh_eq_false_iff {p : Prepared} {c : AgeCondition}
    (hc : ageCondition poco request.cacheControl p = .ok c) :
    isFresh p c = false ↔ isResponseNoCache p = true ∨
      ∃ c, ageCondition poco request.cacheControl p = .ok c ∧ c.holds = false := by
  unfold isFresh
  rw [hc]
  cases isResponseNoCache p <;> simp

/-- A conditional header that was not there is added at the end. -/
theorem isConditionalFor_setNamed {stored : Response} {name value : String} {before : Headers}
    (h : conditionalRequestHeader stored = some (name, value))
    (hnoneMatch : before.has HeaderNames.IfNoneMatch = false)
    (hmodifiedSince : before.has HeaderNames.IfModifiedSince = false) :
    IsConditionalFor stored before
      (before.setNamed name value (conditionalRequestHeader_name h).ne_empty) := by
  have hname := conditionalRequestHeader_name h
  have hnot : before.has name = false := by
    rcases hname with rfl | rfl
    · exact hnoneMatch
    · exact hmodifiedSince
  have hitems : (before.setNamed name value hname.ne_empty).items =
    before.items ++ [(name, value)] := Headers.items_setNamed_of_not_has hname.ne_empty hnot
  unfold IsConditionalFor
  unfold conditionalRequestHeader at h
  split at h
  · cases h
    rw [if_pos (by assumption)]
    exact hitems
  split at h
  · cases h
    rw [if_neg (by assumption), if_pos (by assumption)]
    exact hitems
  split at h
  · cases h
    rw [if_neg (by assumption), if_neg (by assumption)]
    exact hitems
  · cases h

/-- A request that is looked up has no conditional headers of its own. -/
theorem isAvailableToCache_unconditional {s : HeaderStore}
    (h : isAvailableToCache request s = true) :
    request.hasHeader s HeaderNames.IfNoneMatch = false ∧
      request.hasHeader s HeaderNames.IfModifiedSince = false := by
  unfold isAvailableToCache at h
  simp only [Bool.and_eq_true, Bool.not_eq_true'] at h
  exact ⟨h.2, h.1.2⟩

section
variable {s s' : HeaderStore} {strategy : HttpCacheStrategy}

/-- With nothing stored. -/
theorem outcome_none (h : exec (construct poco request none now) s = (.ok strategy, s')) :
    Outcome poco request none now s s' strategy := by
  rw [exec_construct_none] at h
  cases h
  constructor
  · intro honly
    exact if_pos honly
  · intro honly
    simp [honly]
  · simp
  · intro networkRequest response _ hcache
    cases hcache
  · intro networkRequest hnetwork _
    have hsame : request = networkRequest := by
      cases honly : request.cacheControl.onlyIfCached <;> simp [honly] at hnetwork
      exact hnetwork
    rw [hsame]

/-- With a fresh stored response. -/
theorem outcome_fresh {c : AgeCondition} {cacheResponse : Response}
    (hc : ageCondition poco request.cacheControl (prepare poco response now) = .ok c)
    (hfresh : isFresh (prepare poco response now) c = true) :
    Outcome poco request (some response) now s s
      { networkRequest := none, cacheResponse := some cacheResponse } := by
  have hnot : ¬NeedsRevalidation poco request response now := by
    intro hneeds
    rw [(isFresh_eq_false_iff hc).mpr hneeds] at hfresh
    cases hfresh
  constructor
  · intro _
    rfl
  · intro _
    exact .inr rfl
  · constructor
    · rintro ⟨hnetwork, -⟩
      cases hnetwork
    · rintro ⟨stored, hstored, hneeds, -⟩
      cases hstored
      exact (hnot hneeds).elim
  · intro networkRequest stored hnetwork
    cases hnetwork
  · intro networkRequest hnetwork
    cases hnetwork

/-- With a request that only the cache may answer. -/
theorem outcome_onlyIfCached (honly : request.cacheControl.onlyIfCached = true)
    (stored : Option Response) :
    Outcome poco request stored now s s { networkRequest := none, cacheResponse := none } := by
  constructor
  · intro _
    rfl
  · intro hnot
    rw [honly] at hnot
    cases hnot
  · constructor
    · rintro ⟨hnetwork, -⟩
      cases hnetwork
    · rintro ⟨_, _, _, hnot, -⟩
      rw [honly] at hnot
      cases hnot
  · intro networkRequest response hnetwork
    cases hnetwork
  · intro networkRequest hnetwork
    cases hnetwork

/-- With a response that is to be validated. -/
theorem outcome_createNetworkRequest (havailable : isAvailableToCache request s = true)
    (hlive : request.headers < s.next) (honly : request.cacheControl.onlyIfCached = false)
    (hneeds : NeedsRevalidation poco request response now)
    (h : exec (createNetworkRequest poco request response) s = (.ok strategy, s')) :
    Outcome poco request (some response) now s s' strategy := by
  have hnot := isAvailableToCache_unconditional havailable
  -- without a validator the request is sent as it is
  cases hcond : conditionalRequestHeader response with
  | none =>
    have hvalidator : ¬HasValidator response := by
      rw [hasValidator_iff, hcond]
      exact Bool.false_ne_true
    rw [exec_createNetworkRequest_none hcond] at h
    cases h
    constructor
    · intro hcached
      rw [honly] at hcached
      cases hcached
    · intro _
      exact .inl rfl
    · constructor
      · rintro ⟨-, hcache⟩
        cases hcache
      · rintro ⟨stored, hstored, -, -, hhas⟩
        cases hstored
        exact (hvalidator hhas).elim
    · intro networkRequest stored _ hcache
      cases hcache
    · intro networkRequest hnetwork _
      cases hnetwork
      exact Store.deref_alloc_next s _
  | some header =>
    obtain ⟨name, value⟩ := header
    have hvalidator : HasValidator response := by
      rw [hasValidator_iff, hcond]
      rfl
    have hname := conditionalRequestHeader_name hcond
    -- the header is written into the request's own list, and a copy of the list is sent
    obtain ⟨written, hwritten⟩ : ∃ written, written = s.write request.headers
      ((s.deref request.headers).setNamed name value hname.ne_empty) := ⟨_, rfl⟩
    rw [exec_createNetworkRequest_some hcond, ← hwritten] at h
    cases h
    constructor
    · intro hcached
      rw [honly] at hcached
      cases hcached
    · intro _
      exact .inl rfl
    · constructor
      · intro _
        exact ⟨response, rfl, hneeds, honly, hvalidator⟩
      · intro _
        exact ⟨rfl, rfl⟩
    · intro networkRequest stored hnetwork _ hstored
      cases hnetwork
      cases hstored
      refine ⟨?_, hnot⟩
      -- the copy is made of the list that the conditional header was written into
      have hcopy : (written.alloc (written.deref request.headers)).deref s.next =
          (s.deref request.headers).setNamed name value hname.ne_empty := by
        have hnext : written.next = s.next := by
          rw [hwritten, Store.next_write]
        rw [← hnext, Store.deref_alloc_next, hwritten, Store.deref_write_self hlive]
      show IsConditionalFor _ _ (Store.deref _ s.next)
      rw [hcopy]
      exact isConditionalFor_setNamed hcond hnot.1 hnot.2
    · intro networkRequest _ hcache
      cases hcache

/-- **Outcome.** A request that is looked up, whatever is stored and whatever the time. -/
theorem construct_outcome (havailable : isAvailableToCache request s = true)
    (hlive : request.headers < s.next) {stored : Option Response}
    (h : exec (construct poco request stored now) s = (.ok strategy, s')) :
    Outcome poco request stored now s s' strategy := by
  cases stored with
  | none => exact outcome_none h
  | some response =>
    have h : exec (resolveCacheResponseAndNetworkRequest poco request
      (prepare poco response now)) s = (.ok strategy, s') := h
    cases hc : ageCondition poco request.cacheControl (prepare poco response now) with
    | error e =>
      rw [exec_resolve_error hc] at h
      cases h
    | ok c =>
      by_cases hfresh : isFresh (prepare poco response now) c = true
      · obtain ⟨cacheResponse, -, hresolve⟩ := exec_resolve_fresh hc hfresh s
        rw [hresolve] at h
        cases h
        exact outcome_fresh hc hfresh
      have hfresh := eq_false_of_ne_true hfresh
      by_cases honly : request.cacheControl.onlyIfCached = true
      · rw [exec_resolve_onlyIfCached hc hfresh honly] at h
        cases h
        exact outcome_onlyIfCached honly _
      · have honly := eq_false_of_ne_true honly
        rw [exec_resolve_stale hc hfresh honly] at h
        exact outcome_createNetworkRequest havailable hlive honly
          ((isFresh_eq_false_iff hc).mp hfresh) h

end

/-- A response with two validators that is stale after ten seconds. -/
def staleResponse : Response where
  request := plainRequest
  cacheControl := some { maxAgeSec := 10 }
  headers := {
    items := [(HeaderNames.LastModified, "yesterday"), (HeaderNames.ETag, "v1")]
    grouped := by decide
    named := by decide }

/-- The headers of a request that names no validator. -/
def acceptHeaders : Headers where
  items := [("Accept", "*/*")]
  grouped := by decide
  named := by decide

theorem construct_outcome_stale : ∃ strategy s',
    exec (construct Poco.plain plainRequest (some staleResponse) 30) ⟨[acceptHeaders]⟩ =
      (.ok strategy, s') ∧ strategy.networkRequest.isSome ∧
        Outcome Poco.plain plainRequest (some staleResponse) 30 ⟨[acceptHeaders]⟩ s' strategy :=
  ⟨_, _, rfl, rfl, construct_outcome (by decide) (by decide) rfl⟩

/-! ## An `Expires` that is no date -/

/-- The branch of `calculateFreshnessLifetime` that takes a tenth of the time since
`Last-Modified`. -/
def UsesLastModified (poco : Poco) (p : Prepared) : Prop :=
  responseMaxAgeSec p = -1 ∧ p.expires = none ∧ p.lastModified.isSome ∧
    ∃ uri, poco.parseUri p.cacheResponse.request.url = .ok uri ∧ uri.query = ""

/-- `max-stale` lets a response without any lifetime be served. -/
def MaxStaleAllows (request : CacheControl) (p : Prepared) : Prop :=
  isResponseMustRevalidate p = false ∧ request.maxStaleSec ≠ -1 ∧
    calculateCacheResponseAge p +
      (if request.minFreshSec ≠ -1 then request.minFreshSec.toUInt64 else 0) <
        request.maxStaleSec.toUInt64

/-- The stored response has expired on receipt. -/
structure CountsAsExpired (poco : Poco) (response : Response) (now : UInt64) : Prop where
  lifetime : calculateFreshnessLifetime poco (prepare poco response now) = .ok 0
  noHeuristic : ¬UsesLastModified poco (prepare poco response now)
  served : ∀ request s strategy s',
    exec (construct poco request (some response) now) s = (.ok strategy, s') →
      strategy.networkRequest = none → strategy.cacheResponse ≠ none →
        MaxStaleAllows request.cacheControl (prepare poco response now)

/-- There is an `Expires`, but no date can be read from it. -/
def HasUnparsableExpires (poco : Poco) (response : Response) : Prop :=
  response.hasHeader HeaderNames.Expires = true ∧
    poco.tryParseDate (response.getHeaderValue HeaderNames.Expires "") = none

/-- The URL can be read and has a query, or there is no `Last-Modified` that is a date. -/
def HasNoHeuristic (poco : Poco) (response : Response) : Prop :=
  ∃ uri, poco.uri response.request.url = .ok uri ∧
    (uri.query ≠ "" ∨ response.hasHeader HeaderNames.LastModified = false ∨
      poco.tryParseDate (response.getHeaderValue HeaderNames.LastModified "") = none)

/-- `parseUri` is the library's parser with the exception wrapped. -/
theorem parseUri_ok {url : String} {uri : Uri} :
    poco.parseUri url = .ok uri ↔ poco.uri url = .ok uri := by
  unfold Poco.parseUri
  cases poco.uri url <;> simp

/-- There is no date without the header, or when it is none. -/
theorem headerDate_eq_none_iff {name : String} :
    headerDate poco response name = none ↔ response.hasHeader name = false ∨
      poco.tryParseDate (response.getHeaderValue name "") = none := by
  unfold headerDate
  cases response.hasHeader name <;> simp

/-- A response has no lifetime if nothing says so and its URL has a query, or it has no
`Last-Modified`. -/
theorem lifetime_eq_zero {p : Prepared} {uri : Uri} (hmaxAge : responseMaxAgeSec p = -1)
    (hexpires : p.expires = none) (huri : poco.parseUri p.cacheResponse.request.url = .ok uri)
    (hnot : uri.query ≠ "" ∨ p.lastModified = none) :
    calculateFreshnessLifetime poco p = .ok 0 := by
  unfold calculateFreshnessLifetime
  rw [if_neg (not_not.mpr hmaxAge), hexpires, huri]
  cases hmodified : p.lastModified with
  | none => rfl
  | some lastModified =>
    have hquery : uri.query ≠ "" := hnot.resolve_right (by rw [hmodified]; nofun)
    show (if uri.query = "" then _ else _) = _
    rw [if_neg hquery]
    rfl

/-- Nothing counts as fresh but by `max-stale`. -/
theorem maxStaleAllows_of_served {p : Prepared}
    (hlifetime : calculateFreshnessLifetime poco p = .ok 0) {s s' : HeaderStore}
    {strategy : HttpCacheStrategy}
    (h : exec (resolveCacheResponseAndNetworkRequest poco request p) s = (.ok strategy, s'))
    (hnetwork : strategy.networkRequest = none) (hcache : strategy.cacheResponse ≠ none) :
    MaxStaleAllows request.cacheControl p := by
  obtain ⟨c, hc, hfresh⟩ := isFresh_of_resolve h hnetwork hcache
  unfold ageCondition at hc
  rw [hlifetime] at hc
  cases hc
  have hholds := (Bool.and_eq_true_iff.mp hfresh).2
  unfold AgeCondition.holds at hholds
  have hlt := of_decide_eq_true hholds
  have hzero : (if request.cacheControl.maxAgeSec ≠ -1 then
      min 0 request.cacheControl.maxAgeSec.toUInt64 else 0) = 0 := by
    split
    · exact if_pos UInt64.zero_le
    · rfl
  have hnotLess : ∀ {n : UInt64}, ¬n < 0 := UInt64.not_lt_zero
  dsimp only at hlt
  rw [hzero, UInt64.zero_add] at hlt
  by_cases hallowed : (!isResponseMustRevalidate p && request.cacheControl.maxStaleSec ≠ -1) = true
  · rw [if_pos hallowed] at hlt
    rw [Bool.and_eq_true, Bool.not_eq_true', decide_eq_true_eq] at hallowed
    exact ⟨hallowed.1, hallowed.2, hlt⟩
  · rw [if_neg hallowed] at hlt
    exact (hnotLess hlt).elim

/-- **An unparsable `Expires`.** It counts as expired where no heuristic takes its place. -/
theorem countsAsExpired_iff (hexpires : HasUnparsableExpires poco response)
    (hmaxAge : ∀ c ∈ response.cacheControl, c.maxAgeSec = -1) :
    CountsAsExpired poco response now ↔ HasNoHeuristic poco response := by
  have hmaxAge : responseMaxAgeSec (prepare poco response now) = -1 := by
    unfold responseMaxAgeSec prepare
    cases hcontrol : response.cacheControl with
    | none => rfl
    | some c => exact hmaxAge c hcontrol
  have hexpires : (prepare poco response now).expires = none :=
    headerDate_eq_none_iff.mpr (.inr hexpires.2)
  constructor
  · rintro ⟨hlifetime, hnot, -⟩
    cases huri : poco.parseUri response.request.url with
    -- a URL that does not parse gives no lifetime at all
    | error e =>
      unfold calculateFreshnessLifetime at hlifetime
      have huri : poco.parseUri (prepare poco response now).cacheResponse.request.url = .error e :=
        huri
      rw [if_neg (not_not.mpr hmaxAge), hexpires, huri] at hlifetime
      cases hlifetime
    | ok uri =>
      refine ⟨uri, parseUri_ok.mp huri, ?_⟩
      rw [← headerDate_eq_none_iff]
      -- a heuristic lifetime is at least a second
      by_contra hheuristic
      rw [not_or, not_not] at hheuristic
      exact hnot ⟨hmaxAge, hexpires, Option.isSome_iff_ne_none.mpr hheuristic.2, uri, huri,
        hheuristic.1⟩
  · rintro ⟨uri, huri, hno⟩
    rw [← headerDate_eq_none_iff] at hno
    have huri := parseUri_ok.mpr huri
    have hlifetime := lifetime_eq_zero hmaxAge hexpires huri hno
    refine ⟨hlifetime, ?_, fun request s strategy s' h => maxStaleAllows_of_served hlifetime h⟩
    rintro ⟨-, -, hsome, uri', huri', hquery⟩
    have heq : uri' = uri := Except.ok.inj (huri'.symm.trans huri)
    rw [heq] at hquery
    -- a query, or no `Last-Modified`
    rcases hno with hno | hno
    · exact hno hquery
    · have hsome : (headerDate poco response HeaderNames.LastModified).isSome = true := hsome
      rw [hno] at hsome
      cases hsome

/-! ### Expired, but modified long before -/

/-- Reads two dates in the HTTP format. -/
def datePoco : Poco :=
  { Poco.plain with
    tryParseDateTime := fun format value =>
      if format = .http ∧ value = "Fri, 05 Aug 2016 12:00:00 GMT" then
        some ⟨1470398400 * 1000000⟩
      else if format = .http ∧ value = "Thu, 04 Aug 2016 12:00:00 GMT" then
        some ⟨1470312000 * 1000000⟩
      else none }

/-- `Expires: -1`, with other headers. -/
def expiredResponse (headers : Headers) : Response where
  request := plainRequest
  headers := headers
  sentRequestSec := 1470398400
  receivedResponseSec := 1470398400

/-- `Expires: -1`, as servers send it. -/
def expiredHeaders : Headers where
  items := [(HeaderNames.Expires, "-1"), (HeaderNames.Date, "Fri, 05 Aug 2016 12:00:00 GMT")]
  grouped := by decide
  named := by decide

/-- The same with a `Last-Modified`. -/
def expiredModifiedHeaders : Headers where
  items := (HeaderNames.LastModified, "Thu, 04 Aug 2016 12:00:00 GMT") :: expiredHeaders.items
  grouped := by decide
  named := by decide

theorem countsAsExpired_minusOne :
    CountsAsExpired datePoco (expiredResponse expiredHeaders) 1470398460 :=
  (countsAsExpired_iff ⟨by decide, by decide⟩ (fun c hc => by cases hc)).mpr
    ⟨⟨"http", "example.com", 80, ""⟩, by rfl, .inr (.inl (by decide))⟩

/-- A minute after it came it is served, as it would be for a tenth of a day. -/
theorem not_countsAsExpired_lastModified :
    HasUnparsableExpires datePoco (expiredResponse expiredModifiedHeaders) ∧
    (expiredResponse expiredModifiedHeaders).cacheControl = none ∧
    calculateFreshnessLifetime datePoco (prepare datePoco (expiredResponse expiredModifiedHeaders)
      1470398460) = .ok 8640 ∧
    (exec (construct datePoco plainRequest (some (expiredResponse expiredModifiedHeaders))
      1470398460) ⟨[]⟩).1 = .ok
        { networkRequest := none
          cacheResponse := some (expiredResponse expiredModifiedHeaders) } ∧
    ¬CountsAsExpired datePoco (expiredResponse expiredModifiedHeaders) 1470398460 := by
  have hlifetime : calculateFreshnessLifetime datePoco (prepare datePoco
      (expiredResponse expiredModifiedHeaders) 1470398460) = .ok 8640 := by decide +kernel
  refine ⟨⟨by decide, by decide⟩, rfl, hlifetime, by decide +kernel, fun h => ?_⟩
  rw [h.lifetime] at hlifetime
  exact absurd (Except.ok.inj hlifetime) (by decide)

end EasyHttp.HttpCacheStrategy
