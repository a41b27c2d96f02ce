import EasyHttp.Engine.RedirectChain
import EasyHttp.Library.ExecRelation
import Mathlib.Data.List.Forall2

/-!
# Where `Authorization` goes

* `sameOrigins_of_authorization`: a request that carries `Authorization` at the end of a chain
  of redirects never left the origin of the first request.
* `nextHop_related`: two hops whose requests differ in values of `Authorization` only lead to
  requests that differ in values of `Authorization` only.
* `authorization_stays_at_origin`: hence what is sent after a change of origin does not depend
  on these values.
-/

namespace EasyHttp

open HttpConstants HttpCacheStrategy HttpEngine Exec Store

/-! ## Header lists that differ in credentials -/

/-- The same name, and the same value except under `Authorization`. -/
def SameItem (e e' : String × String) : Prop :=
  e.1 = e'.1 ∧ (icompare e.1 HeaderNames.Authorization = false → e.2 = e'.2)

theorem SameItem.refl (e : String × String) : SameItem e e := ⟨rfl, fun _ => rfl⟩

section
variable {items items' : List (String × String)} (hsame : List.Forall₂ SameItem items items')
include hsame

theorem names_eq : items.map Prod.fst = items'.map Prod.fst := by
  induction hsame with
  | nil => rfl
  | cons he _ ih => rw [List.map_cons, List.map_cons, he.1, ih]

/-- A filter that looks at the names keeps the lists alike. -/
theorem filter_names (p : String → Bool) :
    List.Forall₂ SameItem (items.filter fun e => p e.1) (items'.filter fun e => p e.1) := by
  refine List.rel_filter ?_ hsame
  intro e e' he
  show p e.1 = true ↔ p e'.1 = true
  rw [he.1]

theorem items_eq (hnot : ∀ e ∈ items, icompare e.1 HeaderNames.Authorization = false) :
    items = items' := by
  induction hsame with
  | nil => rfl
  | cons he _ ih =>
    rw [Prod.ext he.1 (he.2 (hnot _ List.mem_cons_self)),
      ih fun e hmem => hnot e (List.mem_cons_of_mem _ hmem)]

end

/-- The same items, except for values of `Authorization`. -/
def SameButAuthorization (h h' : Headers) : Prop := List.Forall₂ SameItem h.items h'.items

namespace SameButAuthorization

theorem refl (h : Headers) : SameButAuthorization h h :=
  List.forall₂_same.mpr fun e _ => SameItem.refl e

variable {h h' : Headers} (hsame : SameButAuthorization h h')
include hsame

theorem has_eq (name : String) : h.has name = h'.has name := by
  have hmem : ∀ g : Headers, g.has name = true ↔
      ∃ n ∈ g.items.map Prod.fst, lower n = lower name := by
    intro g
    rw [Headers.has_iff]
    simp
  rw [Bool.eq_iff_iff, hmem, hmem, names_eq hsame]

/-- A header that is set keeps them alike. -/
theorem setNamed {name : String} (value : String) (hname : name ≠ "") :
    SameButAuthorization (h.setNamed name value hname) (h'.setNamed name value hname) := by
  show List.Forall₂ SameItem (h.setItems name value) (h'.setItems name value)
  rw [Headers.setItems_eq, Headers.setItems_eq]
  refine List.rel_append ?_ (List.Forall₂.cons (SameItem.refl _) List.Forall₂.nil)
  exact filter_names hsame fun n => decide (lower n ≠ lower name)

/-- Without `Authorization` there is no difference. -/
theorem eq_of_not_has (hnot : h.has HeaderNames.Authorization = false) : h = h' := by
  apply Headers.ext_items
  apply items_eq hsame
  intro e he
  rw [Headers.has_eq_false_iff] at hnot
  exact decide_eq_false (hnot e he)

end SameButAuthorization

/-! ## One hop, twice -/

/-- Stores whose header lists differ in credentials. -/
abbrev StoresSameButAuthorization : HeaderStore → HeaderStore → Prop :=
  Store.Related SameButAuthorization

section
variable {s t : HeaderStore} (hst : StoresSameButAuthorization s t)
include hst

theorem hasHeader_eq (request : Request) (name : String) :
    request.hasHeader s name = request.hasHeader t name :=
  (hst.2 request.headers).has_eq name

/-- A request is available to the cache in both stores, or in none. -/
theorem isAvailableToCache_eq (request : Request) :
    isAvailableToCache request s = isAvailableToCache request t := by
  unfold isAvailableToCache
  rw [hasHeader_eq hst, hasHeader_eq hst, hasHeader_eq hst]

/-- A response is cacheable in both stores, or in none. -/
theorem isCacheable_eq (response : Response) : isCacheable response s = isCacheable response t := by
  unfold isCacheable
  rw [hasHeader_eq hst]

namespace HttpEngine

theorem cacheDecision_eq (poco : Poco) (hasCache : Bool) (env : Surroundings) (request : Request) :
    cacheDecision poco hasCache env request s = cacheDecision poco hasCache env request t := by
  unfold cacheDecision
  rw [isAvailableToCache_eq hst]

theorem check_eq (env : Surroundings) (request : Request) (d : CacheDecision) :
    d.check env request s = d.check env request t := by
  unfold CacheDecision.check
  rw [hst.1]

/-- The stores stay alike. -/
theorem storeAfter_related (request : Request) (d : CacheDecision) :
    StoresSameButAuthorization (d.storeAfter request s) (d.storeAfter request t) := by
  cases d with
  | revalidate header cacheResponse =>
    have hwritten := hst.write request.headers
      ((hst.2 request.headers).setNamed header.value header.conditional.ne_empty)
    exact hwritten.alloc (hwritten.2 request.headers)
  | sendCopy => exact hst.alloc (hst.2 request.headers)
  | _ => exact hst

end HttpEngine

end

namespace HttpEngine

/-- The lookup decides the same. -/
theorem relates_checkCache (poco : Poco) (hasCache : Bool) (env : Surroundings)
    (request : Request) :
    Relates StoresSameButAuthorization Eq
      (checkCacheBeforeSendRequest poco hasCache env request)
      (checkCacheBeforeSendRequest poco hasCache env request) := by
  intro s t hst
  rw [exec_checkCache, exec_checkCache, cacheDecision_eq hst, check_eq hst]
  exact ⟨.of_eq rfl, storeAfter_related hst request _⟩

theorem relates_executeAfterCheck (poco : Poco) (hasCache : Bool) (env : Surroundings)
    (request : Request) (check : CacheCheck) :
    Relates StoresSameButAuthorization Eq
      (executeAfterCheck poco hasCache env request check)
      (executeAfterCheck poco hasCache env request check) := by
  unfold executeAfterCheck
  split
  · exact relates_pure rfl
  · rename_i networkRequest _ _
    refine relates_bind (relates_lift (.of_eq rfl)) fun response response' heq => ?_
    subst heq
    refine relates_bind relates_getState fun s t hst => ?_
    refine relates_lift (.of_eq ?_)
    unfold createUserResponse
    rw [isCacheable_eq hst]
  · exact relates_throw _

/-- A round of the engine is the same in both stores. -/
theorem relates_execute (poco : Poco) (hasCache : Bool) (env : Surroundings) (request : Request) :
    Relates StoresSameButAuthorization Eq
      (execute poco hasCache env request) (execute poco hasCache env request) := by
  refine relates_bind (relates_checkCache poco hasCache env request) fun check check' heq => ?_
  subst heq
  exact relates_executeAfterCheck poco hasCache env request check

/-- The kept headers, added one by one, differ in credentials at most. -/
theorem addAll_keepsHeader_related {h h' : Headers} (hsame : SameButAuthorization h h')
    (beforeUri resolvedUri : Uri) :
    ResultRel (ε := HttpException) SameButAuthorization
      (Headers.empty.addAll (h.items.filter (keepsHeader beforeUri resolvedUri)))
      (Headers.empty.addAll (h'.items.filter (keepsHeader beforeUri resolvedUri))) := by
  obtain ⟨p, hp⟩ := keepsHeader_eq beforeUri resolvedUri
  obtain ⟨kept, hadd, hitems⟩ := h.addAll_filter p
  obtain ⟨kept', hadd', hitems'⟩ := h'.addAll_filter p
  rw [hp, hadd, hadd']
  show List.Forall₂ SameItem kept.items kept'.items
  rw [hitems, hitems']
  exact filter_names hsame fun n => p (lower n)

theorem relates_build (poco : Poco) {builder : RequestBuilder} {cacheControl : CacheControl}
    {headers : HeadersPtr} (hc : builder.cacheControl = some cacheControl)
    (hh : builder.headers = some headers) :
    Relates StoresSameButAuthorization Eq (builder.build poco) (builder.build poco) := by
  unfold RequestBuilder.build
  rw [hc, hh]
  refine relates_bind (relates_readCell headers) fun items items' hsame => ?_
  refine relates_bind (relates_newCell hsame) fun p p' heq => ?_
  subst heq
  exact relates_pure rfl

theorem relates_buildRetryRequest (poco : Poco) (request : Request) (resolvedUrl : String) :
    Relates StoresSameButAuthorization Eq
      (buildRetryRequest poco request resolvedUrl)
      (buildRetryRequest poco request resolvedUrl) := by
  unfold buildRetryRequest
  refine relates_bind (relates_lift (.of_eq rfl)) fun beforeUri _ heq => ?_
  subst heq
  refine relates_bind (relates_lift (.of_eq rfl)) fun resolvedUri _ heq => ?_
  subst heq
  split
  · exact relates_pure rfl
  refine relates_bind (relates_readCell _) fun headers headers' hsame => ?_
  refine relates_bind (relates_lift (addAll_keepsHeader_related hsame _ _))
    fun kept kept' hkept => ?_
  refine relates_bind (relates_newCell hkept) fun p _ heq => ?_
  subst heq
  refine relates_bind (Q := fun builder builder' =>
    builder = builder' ∧ builder.cacheControl = some request.cacheControl)
    (relates_lift ?_) fun builder _ heq => ?_
  · unfold RequestBuilder.setUrl
    split
    · rfl
    split
    · exact ⟨rfl, rfl⟩
    · rfl
  obtain ⟨rfl, hc⟩ := heq
  refine relates_bind (relates_build poco hc rfl) fun retryRequest _ heq => ?_
  subst heq
  exact relates_pure rfl

theorem relates_getRetryRequest (poco : Poco) (response : Response) :
    Relates StoresSameButAuthorization Eq
      (getRetryRequest poco response) (getRetryRequest poco response) := by
  unfold getRetryRequest
  split
  · exact relates_pure rfl
  unfold makeRetryRequest
  split
  · exact relates_pure rfl
  by_cases hurl : response.getHeaderValue HeaderNames.Location "" = ""
  · rw [if_pos hurl]
    exact relates_pure rfl
  rw [if_neg hurl]
  rcases poco.decode (response.getHeaderValue HeaderNames.Location "") with message | resolvedUrl
  · exact relates_pure rfl
  · by_cases hempty : resolvedUrl = ""
    · simp only [hempty, if_true]
      exact relates_pure rfl
    · simp only [hempty, if_false]
      exact relates_buildRetryRequest poco _ _

end HttpEngine

namespace HttpRequestExecutor

/-- A hop is the same in both stores. -/
theorem relates_hop (poco : Poco) (hasCache : Bool) (env : Surroundings) (request : Request) :
    Relates StoresSameButAuthorization Eq
      (hop poco hasCache env request) (hop poco hasCache env request) := by
  intro s t hst
  by_cases hc : env.cancelled = true
  · rw [hop_cancelled hc, hop_cancelled hc]
    exact ⟨rfl, hst⟩
  rw [Bool.not_eq_true] at hc
  rw [hop_of_not_cancelled hc, hop_of_not_cancelled hc]
  refine relates_bind (relates_execute poco hasCache env request) (fun response _ heq => ?_) s t hst
  subst heq
  refine relates_bind (relates_getRetryRequest poco response) fun retryRequest _ heq => ?_
  subst heq
  by_cases hsome : retryRequest.isSome = true
  · rw [if_pos hsome]
    refine relates_bind (relates_lift (.of_eq rfl)) fun _ _ _ => ?_
    exact relates_pure rfl
  · rw [if_neg hsome]
    exact relates_pure rfl

/-! ## Chains, twice -/

/-- The same request, with header lists that differ in credentials. -/
structure DifferInAuthorization (q q' : LiveRequest) : Prop where
  request : q.request = q'.request
  store : StoresSameButAuthorization q.store q'.store

/-- What goes over the network. -/
structure SentRequest where
  method : HttpMethod
  url : String
  tag : Option ℕ
  headers : List (String × String)
  cacheControl : CacheControl
  body : Option ℕ
deriving DecidableEq

/-- What of a request goes over the connection. -/
def Request.sent (request : Request) (s : HeaderStore) : SentRequest where
  method := request.method
  url := request.url
  tag := request.tag
  headers := (request.getHeaders s).items
  cacheControl := request.cacheControl
  body := request.body

/-- What a hop sends, `none` when it sends nothing. -/
def sentRequest (poco : Poco) (hasCache : Bool) (env : Surroundings) (q : LiveRequest) :
    Option SentRequest :=
  if env.cancelled then none
  else match exec (checkCacheBeforeSendRequest poco hasCache env q.request) q.store with
    | (.ok check, s) => check.networkRequest.map fun request => Request.sent request s
    | (.error _, _) => none

section
variable {poco : Poco} {hasCache : Bool} {q q' : LiveRequest}

/-- The headers of the two requests are alike. -/
theorem DifferInAuthorization.headers (h : DifferInAuthorization q q') :
    SameButAuthorization q.headers q'.headers := by
  have hcell := h.store.2 q.request.headers
  rw [LiveRequest.headers, LiveRequest.headers, ← h.request]
  exact hcell

/-- A hop whose response is a followed redirect has a next hop. -/
theorem exists_nextHop {env : Surroundings} {response : Response} {retryRequest : Request}
    (h : (exec (hop poco hasCache env q.request) q.store).1 = .ok (response, some retryRequest)) :
    ∃ t, nextHop poco hasCache q env = some t ∧ t.request = retryRequest ∧
      t.store = (exec (hop poco hasCache env q.request) q.store).2 := by
  rcases hrun : exec (hop poco hasCache env q.request) q.store with ⟨r, s⟩
  rw [hrun] at h
  subst h
  obtain ⟨_, _, _, _, _, _, _, hlive, _⟩ := hop_some q.live hrun
  exact ⟨⟨retryRequest, s, hlive⟩, nextHop_eq_some_iff.mpr ⟨response, hrun⟩, rfl, rfl⟩

/-- Either both hops are followed, by requests that differ in credentials, or none is. -/
theorem nextHop_related (poco : Poco) (hasCache : Bool) (h : DifferInAuthorization q q')
    (env : Surroundings) : Option.Rel DifferInAuthorization
      (nextHop poco hasCache q env) (nextHop poco hasCache q' env) := by
  obtain ⟨hres, hstore⟩ := relates_hop poco hasCache env q.request q.store q'.store h.store
  replace hres := hres.eq
  rw [h.request] at hres hstore
  cases hnext : nextHop poco hasCache q env with
  | some t =>
    obtain ⟨response, hrun⟩ := nextHop_eq_some_iff.mp hnext
    rw [h.request] at hrun
    rw [hrun] at hres hstore
    obtain ⟨t', hnext', hrequest, hstore'⟩ := exists_nextHop hres.symm
    rw [hnext']
    refine .some ⟨hrequest.symm, ?_⟩
    rw [hstore']
    exact hstore
  | none =>
    cases hnext' : nextHop poco hasCache q' env with
    | none => exact .none
    | some t' =>
      obtain ⟨response, hrun⟩ := nextHop_eq_some_iff.mp hnext'
      rw [hrun, ← h.request] at hres
      obtain ⟨t, hsome, _⟩ := exists_nextHop hres
      rw [hnext] at hsome
      cases hsome

/-- The two chains stay alike, hop by hop. -/
theorem run_related (poco : Poco) (hasCache : Bool) (h : DifferInAuthorization q q')
    (envs : List Surroundings) :
    Option.Rel DifferInAuthorization
      (Runs.run (nextHop poco hasCache) q envs) (Runs.run (nextHop poco hasCache) q' envs) := by
  induction envs generalizing q q' with
  | nil => exact .some h
  | cons env envs ih =>
    rw [Runs.run, Runs.run]
    have hnext := nextHop_related poco hasCache h env
    cases hq : nextHop poco hasCache q env <;> cases hq' : nextHop poco hasCache q' env <;>
      rw [hq, hq'] at hnext
    · exact .none
    · cases hnext
    · cases hnext
    · cases hnext with
      | some hnext => exact ih hnext

/-- What a lookup leaves to send has the headers that the request has after it. -/
theorem check_sent {env : Surroundings} {request : Request} {s : HeaderStore}
    {d : CacheDecision} {check : CacheCheck} (hlive : request.headers < s.next)
    (h : d.check env request s = .ok check) :
    (check.networkRequest.map fun r => Request.sent r (d.storeAfter request s)) =
      check.networkRequest.map fun _ =>
        { Request.sent request s with headers := (d.headersAfter (request.getHeaders s)).items } := by
  rw [check_networkRequest h]
  cases hnet : d.networkRequest request s with
  | none => rfl
  | some networkRequest =>
    obtain ⟨hrequest, _, hheaders⟩ := d.networkRequest_headers hlive hnet
    have hitems : (networkRequest.getHeaders (d.storeAfter request s)).items =
        (d.headersAfter (request.getHeaders s)).items := congrArg Headers.items hheaders
    rw [Option.map_some, Option.map_some, Request.sent, hitems, hrequest]
    rfl

/-- Without `Authorization` in one of them, two such requests send the same. -/
theorem sentRequest_eq (h : DifferInAuthorization q q')
    (hnot : q.headers.has HeaderNames.Authorization = false) (env : Surroundings) :
    sentRequest poco hasCache env q = sentRequest poco hasCache env q' := by
  have hheaders : q.request.getHeaders q.store = q.request.getHeaders q'.store := by
    have heq : q.headers = q'.headers := h.headers.eq_of_not_has hnot
    rw [LiveRequest.headers, LiveRequest.headers, ← h.request] at heq
    exact heq
  have hlive : q.request.headers < q'.store.next := by
    rw [h.request]
    exact q'.live
  unfold sentRequest
  by_cases hc : env.cancelled = true
  · rw [if_pos hc, if_pos hc]
  rw [if_neg hc, if_neg hc, ← h.request, exec_checkCache, exec_checkCache,
    ← cacheDecision_eq h.store, ← check_eq h.store]
  cases hcheck : (cacheDecision poco hasCache env q.request q.store).check env q.request q.store with
  | error e => rfl
  | ok check =>
    have hcheck' := hcheck
    rw [check_eq h.store] at hcheck'
    show Option.map _ _ = Option.map _ _
    rw [check_sent q.live hcheck, check_sent hlive hcheck']
    unfold Request.sent
    rw [hheaders]

/-- A request that still carries `Authorization` never left the origin of the first. -/
theorem sameOrigins_of_authorization {envs : List Surroundings}
    (hrun : Runs.run (nextHop poco hasCache) q envs = some q')
    (hauth : q'.headers.has HeaderNames.Authorization = true) :
    sameOrigins poco hasCache q envs = true := by
  by_contra hother
  rw [Bool.not_eq_true] at hother
  obtain ⟨e, he, hname⟩ := Headers.has_iff.mp hauth
  rw [chain_headers hrun, hother, List.mem_append] at he
  have hcompare : icompare e.1 HeaderNames.Authorization = true := decide_eq_true hname
  rcases he with he | he
  · have hkept := (List.mem_filter.mp he).2
    rw [hcompare] at hkept
    cases hkept
  · rw [validators_name he] at hcompare
    cases hcompare

end

/-! ## `Authorization` stays at its origin -/

/-- If a request at the end of a chain of redirects carries `Authorization`, all hops go to the
origin of the first. And of two chains that differ in values of `Authorization` and get the
same answers, everything sent after a change of origin is the same. -/
theorem authorization_stays_at_origin (poco : Poco) (hasCache : Bool) :
    (∀ (q q' : LiveRequest) (envs : List Surroundings),
      Runs.run (nextHop poco hasCache) q envs = some q' →
      q'.headers.has HeaderNames.Authorization = true →
      ∀ t ∈ requests poco hasCache q envs,
        originOf poco t.request.url = originOf poco q.request.url) ∧
    (∀ (q q' : LiveRequest) (envs : List Surroundings) (env : Surroundings),
      DifferInAuthorization q q' → sameOrigins poco hasCache q envs = false →
      (Runs.run (nextHop poco hasCache) q envs).bind (sentRequest poco hasCache env) =
        (Runs.run (nextHop poco hasCache) q' envs).bind (sentRequest poco hasCache env)) := by
  constructor
  · intro q q' envs hrun hauth t ht
    -- a chain that still has the header has stayed at its origin
    have hsame := sameOrigins_of_authorization hrun hauth
    exact of_decide_eq_true (List.all_eq_true.mp hsame t ht)
  · intro q q' envs env hdiffer hother
    -- the two chains go on alike, so both stop or neither does
    have hrelated := run_related poco hasCache hdiffer envs
    cases hq : Runs.run (nextHop poco hasCache) q envs with
    | none =>
      rw [hq] at hrelated
      cases hq' : Runs.run (nextHop poco hasCache) q' envs with
      | none => rfl
      | some t' =>
        rw [hq'] at hrelated
        cases hrelated
    | some t =>
      -- after another origin there is no such header
      have hnot : t.headers.has HeaderNames.Authorization = false := by
        by_contra hauth
        rw [Bool.not_eq_false] at hauth
        rw [sameOrigins_of_authorization hq hauth] at hother
        cases hother
      rw [hq] at hrelated
      cases hq' : Runs.run (nextHop poco hasCache) q' envs with
      | none =>
        rw [hq'] at hrelated
        cases hrelated
      | some t' =>
        rw [hq', Option.rel_some_some] at hrelated
        exact sentRequest_eq hrelated hnot env

/-- Two requests with different credentials. -/
theorem differ_requestWithCredentials (c d : String) :
    DifferInAuthorization (requestWithCredentials c) (requestWithCredentials d) := by
  refine ⟨rfl, rfl, fun p => ?_⟩
  cases p with
  | zero =>
    have heq : icompare HeaderNames.Authorization HeaderNames.Authorization = true := by decide
    refine List.Forall₂.cons ⟨rfl, fun hne => ?_⟩ List.Forall₂.nil
    exact (Bool.eq_false_iff.mp hne heq).elim
  | succ p => exact SameButAuthorization.refl _

theorem authorization_stays_at_origin_a_com :
    (∃ q', Runs.run (nextHop Poco.plain true) (requestWithCredentials "c")
        [redirected "http://a.com/b" none] = some q' ∧
      ∀ t ∈ requests Poco.plain true (requestWithCredentials "c")
          [redirected "http://a.com/b" none],
        originOf Poco.plain t.request.url = originOf Poco.plain "http://a.com/") ∧
    ∀ env, (Runs.run (nextHop Poco.plain true) (requestWithCredentials "c")
        redirectedToOtherHost).bind (sentRequest Poco.plain true env) =
      (Runs.run (nextHop Poco.plain true) (requestWithCredentials "d")
        redirectedToOtherHost).bind (sentRequest Poco.plain true env) := by
  obtain ⟨hstays, hsame⟩ := authorization_stays_at_origin Poco.plain true
  constructor
  · have hauth : (Runs.run (nextHop Poco.plain true) (requestWithCredentials "c")
        [redirected "http://a.com/b" none]).map
          (fun q => q.headers.has HeaderNames.Authorization) = some true := by
      decide +kernel
    obtain ⟨q', hrun, hq'⟩ := Option.map_eq_some_iff.mp hauth
    exact ⟨q', hrun, hstays _ _ _ hrun hq'⟩
  · intro env
    exact hsame _ _ _ env (differ_requestWithCredentials "c" "d") (by decide +kernel)

end HttpRequestExecutor

end EasyHttp
