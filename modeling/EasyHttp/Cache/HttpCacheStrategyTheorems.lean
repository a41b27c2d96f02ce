import EasyHttp.Cache.HttpCacheStrategy

/-!
# What the constructor of `HttpCacheStrategy` does

One equation for each way in which `construct` can end, with the store it leaves:

* `exec_construct_none`: nothing is stored;
* `exec_resolve_fresh`, `exec_resolve_onlyIfCached`, `exec_resolve_stale`: the three branches
  for a stored response;
* `exec_createNetworkRequest_none`, `exec_createNetworkRequest_some`: the request sent for a
  stale response, without and with a conditional header.

Only the last one writes a header list that existed before: the one of the request itself.
-/

namespace EasyHttp

open HttpConstants Exec

/-! ## The builder of requests -/

namespace RequestBuilder

/-- Building from a request copies its headers into a new list. -/
theorem exec_build_ofRequest (poco : Poco) (request : Request) (s : HeaderStore) :
    exec ((ofRequest request).build poco) s =
      (.ok { request with headers := s.next }, s.alloc (s.deref request.headers)) := rfl

/-- A builder made from a request sets the header in that request's own list. -/
theorem exec_setHeader_ofRequest (request : Request) {name : String} (hname : name ≠ "")
    (value : String) (s : HeaderStore) :
    exec ((ofRequest request).setHeader name value) s =
      (.ok (ofRequest request),
        s.write request.headers ((s.deref request.headers).setNamed name value hname)) := by
  have hlift : exec (lift ((s.deref request.headers).set name value)) s =
      (.ok ((s.deref request.headers).setNamed name value hname), s) := by
    rw [exec_lift, Headers.set_of_ne hname]
  unfold setHeader
  rw [if_neg hname]
  show exec (Store.readCell request.headers >>= fun items => lift (items.set name value) >>=
    fun items => Store.writeCell request.headers items >>= fun _ => pure (ofRequest request)) s = _
  rw [exec_bind_ok (Store.exec_readCell _ _), exec_bind_ok hlift,
    exec_bind_ok (Store.exec_writeCell _ _ _)]
  rfl

end RequestBuilder

namespace HttpCacheStrategy

/-! ## The branches of the constructor -/

/-- With nothing stored the request is sent, unless only the cache may answer. -/
theorem exec_construct_none (poco : Poco) (request : Request) (now : UInt64) (s : HeaderStore) :
    exec (construct poco request none now) s =
      (.ok {
        networkRequest := if request.cacheControl.onlyIfCached then none else some request
        cacheResponse := none }, s) := rfl

/-- The stored response is fresh enough for the request. -/
def isFresh (p : Prepared) (c : AgeCondition) : Bool := !isResponseNoCache p && c.holds

/-- Headers with names can be added. -/
theorem foldlM_addHeader_ok {headers : List (String × String)} (hnamed : ∀ h ∈ headers, h.1 ≠ "")
    (response : Response) : ∃ response', headers.foldlM
      (fun responseBuilder header => responseBuilder.addHeader header.1 header.2) response =
        Except.ok response' := by
  induction headers generalizing response with
  | nil => exact ⟨response, rfl⟩
  | cons h headers ih =>
    have hh : h.1 ≠ "" := hnamed h List.mem_cons_self
    have hadd : response.addHeader h.1 h.2 =
        .ok { response with headers := response.headers.addNamed h.1 h.2 hh } := by
      unfold Response.addHeader
      rw [if_neg hh, Headers.add_of_ne hh]
      rfl
    rw [List.foldlM_cons, hadd]
    exact ih (fun x hx => hnamed x (List.mem_cons_of_mem h hx)) _

/-- Adding the warnings never throws. -/
theorem withWarnings_ok (p : Prepared) (c : AgeCondition) :
    ∃ response, withWarnings p c = .ok response := by
  have hnamed : ∀ h ∈ extraHeaders p c, h.1 ≠ "" := by
    intro h hh
    have hw : h.1 = HeaderNames.Warning := by
      unfold extraHeaders at hh
      rw [List.mem_append] at hh
      rcases hh with hh | hh <;> split at hh <;> simp at hh <;> rw [hh]
    rw [hw]
    decide
  unfold withWarnings
  split
  · obtain ⟨response, hfold⟩ := foldlM_addHeader_ok hnamed p.cacheResponse
    rw [hfold]
    exact ⟨_, rfl⟩
  · exact ⟨_, rfl⟩

section
variable {poco : Poco} {request : Request} {p : Prepared}

/-- An exception of the age condition is that of the constructor. -/
theorem exec_resolve_error {e : HttpException}
    (hc : ageCondition poco request.cacheControl p = .error e) (s : HeaderStore) :
    exec (resolveCacheResponseAndNetworkRequest poco request p) s = (.error e, s) := by
  unfold resolveCacheResponseAndNetworkRequest
  apply exec_bind_error
  rw [exec_lift, hc]

variable {c : AgeCondition} (hc : ageCondition poco request.cacheControl p = .ok c)
include hc

/-- The three branches in one equation. -/
theorem exec_resolve (s : HeaderStore) :
    exec (resolveCacheResponseAndNetworkRequest poco request p) s =
      exec (if isFresh p c then do
          let cacheResponse ← lift (withWarnings p c)
          return { networkRequest := none, cacheResponse := some cacheResponse }
        else if request.cacheControl.onlyIfCached then
          return { networkRequest := none, cacheResponse := none }
        else createNetworkRequest poco request p.cacheResponse) s := by
  unfold resolveCacheResponseAndNetworkRequest
  apply exec_bind_ok
  rw [exec_lift, hc]

/-- A fresh response is answered with its warnings. -/
theorem exec_resolve_fresh (hfresh : isFresh p c = true) (s : HeaderStore) :
    ∃ response, withWarnings p c = .ok response ∧
      exec (resolveCacheResponseAndNetworkRequest poco request p) s =
        (.ok { networkRequest := none, cacheResponse := some response }, s) := by
  obtain ⟨response, hw⟩ := withWarnings_ok p c
  refine ⟨response, hw, ?_⟩
  rw [exec_resolve hc, if_pos hfresh, exec_bind_ok (by rw [exec_lift, hw])]
  rfl

/-- A stale one is not, and nothing is sent. -/
theorem exec_resolve_onlyIfCached (hfresh : isFresh p c = false)
    (honly : request.cacheControl.onlyIfCached = true) (s : HeaderStore) :
    exec (resolveCacheResponseAndNetworkRequest poco request p) s =
      (.ok { networkRequest := none, cacheResponse := none }, s) := by
  rw [exec_resolve hc, if_neg (by simp [hfresh]), if_pos honly]
  rfl

/-- Otherwise a request is made. -/
theorem exec_resolve_stale (hfresh : isFresh p c = false)
    (honly : request.cacheControl.onlyIfCached = false) (s : HeaderStore) :
    exec (resolveCacheResponseAndNetworkRequest poco request p) s =
      exec (createNetworkRequest poco request p.cacheResponse) s := by
  rw [exec_resolve hc, if_neg (by simp [hfresh]), if_neg (by simp [honly])]

end

/-! ## The request sent for a stale response -/

/-- Without a validator the request goes out as it is. -/
theorem exec_createNetworkRequest_none {cacheResponse : Response}
    (hcond : conditionalRequestHeader cacheResponse = none) (poco : Poco) (request : Request)
    (s : HeaderStore) :
    exec (createNetworkRequest poco request cacheResponse) s =
      (.ok { networkRequest := some { request with headers := s.next }, cacheResponse := none },
        s.alloc (s.deref request.headers)) := by
  unfold createNetworkRequest
  rw [hcond]
  rfl

/-- The two headers that make a request conditional. -/
def IsConditionalName (name : String) : Prop :=
  name = HeaderNames.IfNoneMatch ∨ name = HeaderNames.IfModifiedSince

theorem IsConditionalName.ne_empty {name : String} (h : IsConditionalName name) : name ≠ "" := by
  rcases h with rfl | rfl <;> decide

/-- The header is `If-None-Match` or `If-Modified-Since`. -/
theorem conditionalRequestHeader_name {response : Response} {name value : String}
    (h : conditionalRequestHeader response = some (name, value)) : IsConditionalName name := by
  unfold conditionalRequestHeader at h
  split at h
  · cases h
    exact .inl rfl
  split at h
  · cases h
    exact .inr rfl
  split at h
  · cases h
    exact .inr rfl
  · cases h

/-- The conditional header is written into the request's own list, and that list is copied. -/
theorem exec_createNetworkRequest_some {cacheResponse : Response} {name value : String}
    (hcond : conditionalRequestHeader cacheResponse = some (name, value)) (poco : Poco)
    (request : Request) (s : HeaderStore) :
    let written := s.write request.headers ((s.deref request.headers).setNamed name value
      (conditionalRequestHeader_name hcond).ne_empty)
    exec (createNetworkRequest poco request cacheResponse) s =
      (.ok {
        networkRequest := some { request with headers := s.next }
        cacheResponse := some cacheResponse },
        written.alloc (written.deref request.headers)) := by
  intro written
  have hset := RequestBuilder.exec_setHeader_ofRequest request
    (conditionalRequestHeader_name hcond).ne_empty value s
  unfold createNetworkRequest
  rw [hcond]
  show exec ((RequestBuilder.ofRequest request).setHeader name value >>= _) s = _
  rw [exec_bind_ok hset, exec_bind_ok (RequestBuilder.exec_build_ofRequest poco request written)]
  rw [Store.next_write]
  rfl

/-- For a stale response there is always a request to send. -/
theorem createNetworkRequest_networkRequest {poco : Poco} {request : Request}
    {cacheResponse : Response} {s s' : HeaderStore} {strategy : HttpCacheStrategy}
    (h : exec (createNetworkRequest poco request cacheResponse) s = (.ok strategy, s')) :
    strategy.networkRequest = some { request with headers := s.next } := by
  cases hcond : conditionalRequestHeader cacheResponse with
  | none =>
    rw [exec_createNetworkRequest_none hcond] at h
    cases h
    rfl
  | some header =>
    obtain ⟨name, value⟩ := header
    rw [exec_createNetworkRequest_some hcond] at h
    cases h
    rfl

/-- Only a fresh response is used without asking the server. -/
theorem isFresh_of_resolve {poco : Poco} {request : Request} {p : Prepared} {s s' : HeaderStore}
    {strategy : HttpCacheStrategy}
    (h : exec (resolveCacheResponseAndNetworkRequest poco request p) s = (.ok strategy, s'))
    (hnet : strategy.networkRequest = none) (hcache : strategy.cacheResponse ≠ none) :
    ∃ c, ageCondition poco request.cacheControl p = .ok c ∧ isFresh p c = true := by
  cases hc : ageCondition poco request.cacheControl p with
  | error e =>
    rw [exec_resolve_error hc] at h
    cases h
  | ok c =>
    refine ⟨c, rfl, ?_⟩
    by_contra hfresh
    rw [Bool.not_eq_true] at hfresh
    cases honly : request.cacheControl.onlyIfCached with
    | true =>
      rw [exec_resolve_onlyIfCached hc hfresh honly] at h
      cases h
      exact hcache rfl
    | false =>
      rw [exec_resolve_stale hc hfresh honly] at h
      rw [createNetworkRequest_networkRequest h] at hnet
      cases hnet

end HttpCacheStrategy

end EasyHttp
