import EasyHttp.Cache.WrittenData
import EasyHttp.Engine.Revalidation
import EasyHttp.Message.CacheControlTheorems

/-!
# Whether what is stored could be stored

`isCacheable` checks a response before it is stored. `updateCache` combines the stored headers with
those of an answer and checks nothing, and the text that is stored keeps one value of a header
that comes twice in one spelling.

* `RowPasses`: a row whose headers pass the checks;
* `PassesWritten`: what makes headers pass them after they have been written;
* `AdmitsAgain`: the condition on a step that writes headers;
* `rows_stay_admitted`: along runs whose steps meet the condition, every row passes.
-/

namespace EasyHttp.Admission

open Exec HttpConstants HttpFileCache HttpCacheStrategy HttpCacheInternal HttpEngine HttpUtil
open SharedCache WrittenData
open ListMap (values)

/-! ## The checks -/

/-- The checks of `isCacheable` on the response: its request is one that passes. -/
def passesChecks (response : Response) : Bool :=
  isCacheable { response with request := Task.idle.request } ⟨[]⟩

/-- A row from which a response can be read that passes the checks. -/
def RowPasses (poco : Poco) (json : PocoJson) (key : String) (row : Row) : Prop :=
  ∃ response, readResponse poco json key Task.idle.request row = .ok response ∧
    passesChecks response = true

/-- The response says that it must not be stored. -/
def saysNoStore (response : Response) : Bool :=
  match response.cacheControl with
  | some cacheControl => cacheControl.noStore
  | none => false

/-- `Cache-Control` lets a response be stored whose status alone does not. -/
def isExplicit (cacheControl : CacheControl) : Bool :=
  cacheControl.maxAgeSec ≠ -1 || cacheControl.isPublic || cacheControl.isPrivate

/-- The status codes that need `Expires` or `Cache-Control`. -/
def redirectCodes : List ℤ := [308, 302, 307]

/-- The content length is known, of `hasContentLength` and `contentLength`. -/
def isKnown (contentLength : Bool × Int64) : Bool :=
  contentLength.1 && decide (contentLength.2 ≠ -1)

/-- The body comes in chunks, so that its length is not given. -/
def isChunked (headers : Headers) : Bool :=
  icompare (headers.getValue HeaderNames.TransferEncoding "") HeaderValues.Chunked

variable {poco : Poco} {json : PocoJson} {makeCacheKey : HttpMethod → String → String}
  {key : String} {request : Request} {row row' : Row} {response response' : Response}
  {headers : Headers} {c : CacheControl} {disk : Disk}

/-- The checks on the request, and those on the response. -/
theorem isCacheable_iff {s : HeaderStore} : isCacheable response s = true ↔
    (response.request.method = .get ∧ response.request.cacheControl.noStore = false ∧
      response.request.hasHeader s HeaderNames.Authorization = false) ∧
    isCacheableStatus response = true ∧ saysNoStore response = false ∧
      (isKnown (response.hasContentLength, response.contentLength) = true ∨
        isChunked response.headers = true) := by
  have hdef : isCacheable response s = (decide (response.request.method = .get)
      && isCacheableStatus response && !response.request.cacheControl.noStore
      && !response.request.hasHeader s HeaderNames.Authorization && !saysNoStore response
      && if !response.hasContentLength || decide (response.contentLength = -1) then
          isChunked response.headers
        else true) := rfl
  have hlength : (if !response.hasContentLength || decide (response.contentLength = -1) then
      isChunked response.headers else true) =
        (isKnown (response.hasContentLength, response.contentLength) ||
          isChunked response.headers) := by
    unfold isKnown
    cases response.hasContentLength <;> by_cases h : response.contentLength = -1 <;> simp [h]
  rw [hdef, hlength]
  simp only [Bool.and_eq_true, Bool.or_eq_true, decide_eq_true_eq, Bool.not_eq_true']
  constructor
  · rintro ⟨⟨⟨⟨⟨hmethod, hstatus⟩, hrequest⟩, hauthorization⟩, hnoStore⟩, hknown⟩
    exact ⟨⟨hmethod, hrequest, hauthorization⟩, hstatus, hnoStore, hknown⟩
  · rintro ⟨⟨hmethod, hrequest, hauthorization⟩, hstatus, hnoStore, hknown⟩
    exact ⟨⟨⟨⟨⟨hmethod, hstatus⟩, hrequest⟩, hauthorization⟩, hnoStore⟩, hknown⟩

/-- What the checks of `isCacheable` ask for, one by one. -/
theorem passesChecks_iff : passesChecks response = true ↔
    isCacheableStatus response = true ∧ saysNoStore response = false ∧
      (isKnown (response.hasContentLength, response.contentLength) = true ∨
        isChunked response.headers = true) := by
  unfold passesChecks
  rw [isCacheable_iff]
  exact and_iff_right ⟨rfl, rfl, rfl⟩

/-- What may be stored passes the checks. -/
theorem passesChecks_of_isCacheable {s : HeaderStore} (h : isCacheable response s = true) :
    passesChecks response = true :=
  passesChecks_iff.mpr (isCacheable_iff.mp h).2

/-- The status codes that may be stored, with those of redirects that say so. -/
theorem isCacheableStatus_iff : isCacheableStatus response = true ↔
    response.statusCode ∈ [200, 203, 204, 300, 301, 404, 405, 410, 414, 501] ∨
      response.statusCode ∈ redirectCodes ∧ (response.hasHeader HeaderNames.Expires = true ∨
        ∃ c, response.cacheControl = some c ∧ isExplicit c = true) := by
  unfold isCacheableStatus redirectCodes
  by_cases hplain : response.statusCode ∈ [200, 203, 204, 300, 301, 404, 405, 410, 414, 501]
  · rw [if_pos hplain]
    exact iff_of_true rfl (.inl hplain)
  · rw [if_neg hplain]
    by_cases hredirect : response.statusCode ∈ [308, 302, 307]
    · rw [if_pos hredirect]
      cases response.cacheControl with
      | none => simp [hplain, hredirect]
      | some c => simp [hplain, hredirect, isExplicit]
    · rw [if_neg hredirect]
      simp [hplain, hredirect]

/-! ## What is written -/

/-- The values of a name in the stored text. -/
def writtenValues (headers : Headers) (name : String) : List String :=
  values lower (lower name) (headersToJson headers).entries

/-- The stored text keeps the values of a name. -/
def KeepsName (headers : Headers) (name : String) : Prop :=
  writtenValues headers name = headers.getValues name

/-- What makes headers with a status pass the checks after they have been written. Each check is
met by the values that some headers have for its name. -/
structure PassesWritten (poco : Poco) (statusCode : ℤ) (headers : Headers) : Prop where
  parsed : ∃ c, CacheControl.createFromHeaders poco (some headers) = .ok c ∧ c.noStore = false
  status : statusCode ∈ [200, 203, 204, 300, 301, 404, 405, 410, 414, 501] ∨
    statusCode ∈ redirectCodes ∧ (headers.has HeaderNames.Expires = true ∨
      ∃ source c, writtenValues headers HeaderNames.CacheControl =
          source.getValues HeaderNames.CacheControl ∧
        CacheControl.createFromHeaders poco (some source) = .ok c ∧ isExplicit c = true)
  length : (∃ source, writtenValues headers HeaderNames.ContentLength =
        source.getValues HeaderNames.ContentLength ∧
      isKnown (contentLengthOf poco source) = true) ∨
    ∃ source, writtenValues headers HeaderNames.TransferEncoding =
        source.getValues HeaderNames.TransferEncoding ∧ isChunked source = true

theorem isExplicit_congr {c c' : CacheControl} (h : c'.withoutNoCache = c.withoutNoCache) :
    isExplicit c' = isExplicit c := by
  cases c
  cases c'
  cases h
  rfl

theorem isChunked_congr {headers' : Headers}
    (h : headers'.getValues HeaderNames.TransferEncoding =
      headers.getValues HeaderNames.TransferEncoding) : isChunked headers' = isChunked headers := by
  unfold isChunked
  rw [Headers.getValue_eq, Headers.getValue_eq, h]

/-- The headers that are read back. -/
theorem exists_read (headers : Headers) : ∃ read : Headers,
    Headers.empty.addAll (headersToJson headers).entries = .ok read ∧
      read.items ⊆ headers.items ∧ (∀ name, read.getValues name = writtenValues headers name) ∧
        ∀ name, headers.has name = true → read.has name = true := by
  obtain ⟨read, hadd, hitems⟩ :=
    Headers.addAll_of_named (headersToJson_named headers) Headers.empty
  have hperm : read.items.Perm (headersToJson headers).entries :=
    (Headers.addAll_perm hadd).trans (List.Perm.of_eq (List.nil_append _))
  refine ⟨read, hadd, fun e he => mem_headersToJson (hperm.subset he), fun name => ?_,
    fun name hname => ?_⟩
  · rw [Headers.getValues, hitems, ListMap.values_foldl_insert lower _ Headers.empty.grouped]
    rfl
  · rw [Headers.has_iff] at hname ⊢
    obtain ⟨e, he, hlower⟩ := hname
    obtain ⟨e', he', hkey⟩ := List.mem_map.mp
      (SortedMap.mem_keys_ofList.mpr (List.mem_map.mpr ⟨e, he, rfl⟩))
    exact ⟨e', hperm.mem_iff.mpr he', (congrArg lower hkey).trans hlower⟩

/-- A response is read from metadata with headers. -/
theorem exists_createResponse {metadata : HttpCacheMetadata}
    (hheaders : metadata.responseHeaders = some headers)
    (hparsed : CacheControl.createFromHeaders poco (some headers) = .ok c) (request : Request) :
    ∃ response, createResponseFromCacheMetadata poco request metadata = .ok response ∧
      response.cacheControl = some c := by
  unfold createResponseFromCacheMetadata
  rw [hheaders, hparsed]
  show ∃ response, (if headers.has HeaderNames.ContentLength then _ else _) = _ ∧ _
  split
  · split
    · exact ⟨_, rfl, rfl⟩
    · exact ⟨_, rfl, rfl⟩
  · exact ⟨_, rfl, rfl⟩

/-- Headers that were checked pass the checks when they are read from their row. -/
theorem PassesWritten.rowPasses (hlaw : ∀ o, json.parse (json.stringify o) = some o)
    (h : PassesWritten poco row.statusCode headers)
    (hrow : row.responseHeaderJson = json.stringify (headersToJson headers)) :
    RowPasses poco json key row := by
  obtain ⟨c₀, hparsed₀, hc₀⟩ := h.parsed
  obtain ⟨read, hadd, hsub, hvalues, hhas⟩ := exists_read headers
  obtain ⟨c, hparsed, hc⟩ := CacheControl.createFromHeaders_of_subset hparsed₀ hc₀ hsub
  -- the row is read back with the headers that were written
  have hmetadata : ∃ metadata, row.getMetadata json key = .ok metadata ∧
      metadata.responseHeaders = some read ∧ metadata.statusCode = row.statusCode := by
    unfold Row.getMetadata exchangeJsonStrToHeaders
    rw [hrow, hlaw]
    show ∃ metadata, (do
      let responseHeaders ← (do
        let headers ← Headers.empty.addAll (headersToJson headers).entries
        return some headers)
      _) = Except.ok metadata ∧ _
    rw [hadd]
    exact ⟨_, rfl, rfl, rfl⟩
  obtain ⟨metadata, hmetadata, hheaders, hcode⟩ := hmetadata
  obtain ⟨response, hcreate, hcontrol⟩ := exists_createResponse hheaders hparsed Task.idle.request
  obtain ⟨headers', hsame, hresponse, -, hstatus, -, hlength⟩ := createResponse_ok hcreate
  rw [hheaders] at hsame
  cases hsame
  refine ⟨response, ?_, passesChecks_iff.mpr ⟨isCacheableStatus_iff.mpr ?_, ?_, ?_⟩⟩
  · unfold readResponse
    rw [hmetadata]
    exact hcreate
  · rw [hstatus, hcode]
    refine h.status.imp_right fun hredirect => ⟨hredirect.1, hredirect.2.imp ?_ ?_⟩
    -- the headers that make a redirect explicit are read back
    · intro hexpires
      unfold Response.hasHeader
      rw [hresponse]
      exact hhas _ hexpires
    · rintro ⟨source, d, hsource, hparse, hexplicit⟩
      refine ⟨c, hcontrol, ?_⟩
      rw [← hexplicit]
      refine isExplicit_congr (CacheControl.createFromHeaders_congr ?_ hparse hparsed)
      rw [hvalues, hsource]
  · unfold saysNoStore
    rw [hcontrol]
    exact hc
  · rw [hlength, hresponse]
    refine h.length.imp ?_ ?_
    -- the length is known from the headers, or the body is chunked
    · rintro ⟨source, hsource, hknown⟩
      rw [← hknown]
      exact congrArg isKnown (contentLengthOf_congr ((hvalues _).trans hsource))
    · rintro ⟨source, hsource, hchunked⟩
      rw [← hchunked]
      exact isChunked_congr ((hvalues _).trans hsource)

/-! ## What is checked before -/

/-- `Cache-Control` of a response lets it be stored whatever its status. -/
def givesExplicit (response : Response) : Bool :=
  match response.cacheControl with
  | some cacheControl => isExplicit cacheControl
  | none => false

/-- The directives of a response are those in its headers. -/
def IsParsed (poco : Poco) (response : Response) : Prop :=
  ∃ c, CacheControl.createFromHeaders poco (some response.headers) = .ok c ∧
    response.cacheControl = some c

/-- `hasContentLength` and `getContentLength64` of Poco, which throws where there is no number. -/
structure IsMeasured (poco : Poco) (headers : Headers) (hasContentLength : Bool)
    (contentLength : Int64) : Prop where
  has : hasContentLength = headers.has HeaderNames.ContentLength
  length : headers.has HeaderNames.ContentLength = true → contentLength =
    (poco.tryParse64 (headers.getValue HeaderNames.ContentLength "-1")).getD (-1)

/-- The stored text keeps what lets the response be stored. -/
def StoresAdmitted (response : Response) : Prop :=
  ((isKnown (response.hasContentLength, response.contentLength) = true ∧
      KeepsName response.headers HeaderNames.ContentLength) ∨
    (isChunked response.headers = true ∧
      KeepsName response.headers HeaderNames.TransferEncoding)) ∧
  (response.statusCode ∈ redirectCodes → response.hasHeader HeaderNames.Expires = true ∨
    KeepsName response.headers HeaderNames.CacheControl)

/-- The answer does not say `no-store`, and an entry that needs `Expires` or `Cache-Control` to be
stored has one of them still. -/
def UpdatesAdmitted (cacheResponse networkResponse : Response) (statusCode : ℤ) : Prop :=
  saysNoStore networkResponse = false ∧
  (statusCode ∈ redirectCodes → cacheResponse.hasHeader HeaderNames.Expires = true ∨
    networkResponse.hasHeader HeaderNames.Expires = true ∨
      if networkResponse.hasHeader HeaderNames.CacheControl = true then
        givesExplicit networkResponse = true ∧
          KeepsName networkResponse.headers HeaderNames.CacheControl
      else givesExplicit cacheResponse = true)

/-- A length that is measured is known from the headers. -/
theorem IsMeasured.isKnown (h : IsMeasured poco headers response.hasContentLength
    response.contentLength)
    (hknown : isKnown (response.hasContentLength, response.contentLength) = true) :
    Admission.isKnown (contentLengthOf poco headers) = true := by
  unfold Admission.isKnown at hknown ⊢
  rw [Bool.and_eq_true, decide_eq_true_eq] at hknown
  obtain ⟨hhas, hlength⟩ := hknown
  have hhas : headers.has HeaderNames.ContentLength = true := h.has.symm.trans hhas
  have hlength : response.contentLength ≠ -1 := hlength
  rw [h.length hhas] at hlength
  unfold contentLengthOf
  rw [if_pos hhas]
  cases hparse : poco.tryParse64 (headers.getValue HeaderNames.ContentLength "-1") with
  | none =>
    rw [hparse] at hlength
    exact absurd rfl hlength
  | some contentLength =>
    rw [hparse] at hlength
    simpa using hlength

/-- An explicit lifetime is one of the parsed headers. -/
theorem explicit_of_givesExplicit (hparsed : IsParsed poco response)
    (h : givesExplicit response = true) : ∃ c,
      CacheControl.createFromHeaders poco (some response.headers) = .ok c ∧
        isExplicit c = true := by
  obtain ⟨c, hparse, hcontrol⟩ := hparsed
  unfold givesExplicit at h
  rw [hcontrol] at h
  exact ⟨c, hparse, h⟩

/-- What does not say `no-store` says so in its parsed headers. -/
theorem noStore_of_saysNoStore (hparsed : IsParsed poco response)
    (h : saysNoStore response = false) : ∃ c,
      CacheControl.createFromHeaders poco (some response.headers) = .ok c ∧ c.noStore = false := by
  obtain ⟨c, hparse, hcontrol⟩ := hparsed
  unfold saysNoStore at h
  rw [hcontrol] at h
  exact ⟨c, hparse, h⟩

/-- A response that may be stored is stored with headers that pass the checks. -/
theorem passesWritten_stored (hparsed : IsParsed poco response)
    (hmeasured : IsMeasured poco response.headers response.hasContentLength
      response.contentLength)
    (hpasses : passesChecks response = true) (hadmitted : StoresAdmitted response) :
    PassesWritten poco response.statusCode response.headers where
  parsed := noStore_of_saysNoStore hparsed (passesChecks_iff.mp hpasses).2.1
  status := by
    refine (isCacheableStatus_iff.mp (passesChecks_iff.mp hpasses).1).imp_right ?_
    rintro ⟨hcode, hfresh⟩
    refine ⟨hcode, ?_⟩
    rcases hadmitted.2 hcode with hexpires | hkeeps
    · exact .inl hexpires
    · refine hfresh.imp_right ?_
      rintro ⟨c, hcontrol, hexplicit⟩
      have hgives : givesExplicit response = true := by
        unfold givesExplicit
        rw [hcontrol]
        exact hexplicit
      obtain ⟨d, hparse, hexplicit⟩ := explicit_of_givesExplicit hparsed hgives
      exact ⟨response.headers, d, hkeeps, hparse, hexplicit⟩
  length := by
    refine hadmitted.1.imp ?_ ?_
    · rintro ⟨hknown, hkeeps⟩
      exact ⟨response.headers, hkeeps, hmeasured.isKnown hknown⟩
    · rintro ⟨hchunked, hkeeps⟩
      exact ⟨response.headers, hkeeps, hchunked⟩

/-! ## What is combined -/

/-- Items of a name that are those of a header list whose values are kept. -/
theorem writtenValues_of_keepsName {combined : Headers} {name : String}
    (hkeeps : KeepsName headers name)
    (hperm : (combined.items.filter fun e => lower e.1 = lower name).Perm
      (headers.items.filter fun e => lower e.1 = lower name)) :
    writtenValues combined name = headers.getValues name := by
  have hnodup : ((headers.items.filter fun e => lower e.1 = lower name).map Prod.fst).Nodup := by
    rw [keys_filter]
    exact nodup_of_values_eq hkeeps
  have hentries : ((headersToJson headers).entries.filter fun e => lower e.1 = lower name) =
      (SortedMap.ofList (headers.items.filter fun e => lower e.1 = lower name)).entries :=
    SortedMap.filter_ofList (fun k => lower k = lower name) headers.items
  refine (values_headersToJson name (hperm.trans ?_)).trans hkeeps
  rw [hentries]
  exact (SortedMap.ofList_perm hnodup).symm

/-- A stored response has read the values of a JSON object, and they are written as they were. -/
theorem writtenValues_of_read {combined : Headers} {name : String}
    (hread : readResponse poco json key request row = .ok response)
    (hperm : (combined.items.filter fun e => lower e.1 = lower name).Perm
      (response.headers.items.filter fun e => lower e.1 = lower name)) :
    writtenValues combined name = response.headers.getValues name := by
  obtain ⟨o, -, hadd, -⟩ := readResponse_ok hread
  have hentries : (response.headers.items.filter fun e => lower e.1 = lower name).Perm
      (o.entries.filter fun e => lower e.1 = lower name) :=
    ((Headers.addAll_perm hadd).trans (List.Perm.of_eq (List.nil_append _))).filter _
  unfold writtenValues Headers.getValues
  rw [values_headersToJson name (hperm.trans hentries), Headers.items_addAll hadd,
    ListMap.values_foldl_insert lower _ Headers.empty.grouped]
  rfl

/-- A header that either list has is among the combined ones, if it goes from end to end. -/
theorem combined_has {cacheResponse networkResponse : Response} {combined : Headers} {name : String}
    (h : combineCacheAndNetworkHeader cacheResponse networkResponse = .ok combined)
    (hwarning : lower name ≠ lower HeaderNames.Warning)
    (hlength : icompare name HeaderNames.ContentLength = false) (hend : isEndToEnd name = true)
    (hhas : cacheResponse.hasHeader name = true ∨ networkResponse.hasHeader name = true) :
    combined.has name = true := by
  have hitems := combined_named h hwarning
  rw [hlength, hend, Bool.false_or, Bool.not_true, Bool.false_or, Bool.not_false, Bool.true_and,
    if_pos rfl] at hitems
  have hsome : ∃ e, e ∈ combined.items.filter fun e => lower e.1 = lower name := by
    by_cases hnetwork : networkResponse.hasHeader name = true
    · obtain ⟨e, he, hlower⟩ := Headers.has_iff.mp hnetwork
      exact ⟨e, hitems.mem_iff.mpr (List.mem_append_right _
        (List.mem_filter.mpr ⟨he, decide_eq_true hlower⟩))⟩
    · obtain ⟨e, he, hlower⟩ := Headers.has_iff.mp (hhas.resolve_right hnetwork)
      rw [Bool.not_eq_true] at hnetwork
      rw [hnetwork, Bool.not_false, if_pos rfl] at hitems
      exact ⟨e, hitems.mem_iff.mpr (List.mem_append_left _
        (List.mem_filter.mpr ⟨he, decide_eq_true hlower⟩))⟩
  obtain ⟨e, he⟩ := hsome
  rw [List.mem_filter, decide_eq_true_eq] at he
  exact Headers.has_iff.mpr ⟨e, he⟩

/-- What is read from a row was parsed from the row's headers. -/
theorem isParsed_of_read (h : readResponse poco json key request row = .ok response) :
    IsParsed poco response := by
  obtain ⟨metadata, -, hcreate⟩ := exists_of_bind_ok h
  obtain ⟨headers, hheaders, hresponse, -⟩ := createResponse_ok hcreate
  obtain ⟨c, hparse, -⟩ := exists_of_bind_ok hcreate
  obtain ⟨response', hcreate', hcontrol⟩ :=
    exists_createResponse hheaders (hheaders ▸ hparse) request
  rw [hcreate] at hcreate'
  cases hcreate'
  rw [hheaders, ← hresponse] at hparse
  exact ⟨c, hparse, hcontrol⟩

/-- Headers that are combined for a redirect make it explicit, if the answer admits it. -/
theorem explicit_updated {cacheResponse networkResponse : Response} {combined : Headers}
    {statusCode : ℤ} (hread : readResponse poco json key request row = .ok cacheResponse)
    (hparsed : IsParsed poco networkResponse)
    (hcombined : combineCacheAndNetworkHeader cacheResponse networkResponse = .ok combined)
    (hredirect : statusCode ∈ redirectCodes)
    (hadmitted : UpdatesAdmitted cacheResponse networkResponse statusCode) :
    combined.has HeaderNames.Expires = true ∨
      ∃ source c, writtenValues combined HeaderNames.CacheControl =
          source.getValues HeaderNames.CacheControl ∧
        CacheControl.createFromHeaders poco (some source) = .ok c ∧ isExplicit c = true := by
  have hexpires := combined_has hcombined (by decide : lower HeaderNames.Expires ≠ lower _)
    (by decide) (by decide)
  have hitems := combined_named hcombined
    (by decide : lower HeaderNames.CacheControl ≠ lower HeaderNames.Warning)
  have hname : icompare HeaderNames.CacheControl HeaderNames.ContentLength = false := by decide
  have hend : isEndToEnd HeaderNames.CacheControl = true := by decide
  rw [hname, hend, Bool.false_or, Bool.not_true, Bool.false_or, Bool.not_false, Bool.true_and,
    if_pos rfl] at hitems
  -- one of the three makes the redirect explicit
  rcases hadmitted.2 hredirect with hcachedExpires | hnetworkExpires | hcontrol
  · exact .inl (hexpires (.inl hcachedExpires))
  · exact .inl (hexpires (.inr hnetworkExpires))
  · right
    by_cases hhas : networkResponse.hasHeader HeaderNames.CacheControl = true
    · rw [if_pos hhas] at hcontrol
      rw [hhas, Bool.not_true, if_neg Bool.false_ne_true, List.nil_append] at hitems
      obtain ⟨c, hparse, hexplicit⟩ := explicit_of_givesExplicit hparsed hcontrol.1
      exact ⟨_, c, writtenValues_of_keepsName hcontrol.2 hitems, hparse, hexplicit⟩
    · rw [if_neg hhas] at hcontrol
      rw [Bool.not_eq_true] at hhas
      have hnone : (networkResponse.headers.items.filter
          fun e => lower e.1 = lower HeaderNames.CacheControl) = [] := by
        rw [List.filter_eq_nil_iff]
        intro e he
        rw [decide_eq_true_eq]
        exact Headers.has_eq_false_iff.mp hhas e he
      rw [hhas, Bool.not_false, if_pos rfl, hnone, List.append_nil] at hitems
      obtain ⟨c, hparse, hexplicit⟩ := explicit_of_givesExplicit (isParsed_of_read hread) hcontrol
      exact ⟨_, c, writtenValues_of_read hread hitems, hparse, hexplicit⟩

/-- The headers that `updateCache` writes pass the checks, if the answer admits it. -/
theorem passesWritten_updated {cacheResponse networkResponse : Response} {combined : Headers}
    {statusCode : ℤ} (hread : readResponse poco json key request row = .ok cacheResponse)
    (hpasses : passesChecks cacheResponse = true) (hparsed : IsParsed poco networkResponse)
    (hcombined : combineCacheAndNetworkHeader cacheResponse networkResponse = .ok combined)
    (hcode : statusCode ∈ [200, 203, 204, 300, 301, 404, 405, 410, 414, 501] ∨
      statusCode ∈ redirectCodes)
    (hadmitted : UpdatesAdmitted cacheResponse networkResponse statusCode) :
    PassesWritten poco statusCode combined := by
  obtain ⟨-, hnoStore, hlength⟩ := passesChecks_iff.mp hpasses
  refine ⟨?_, hcode.imp_right fun hredirect =>
    ⟨hredirect, explicit_updated hread hparsed hcombined hredirect hadmitted⟩, ?_⟩
  -- the combined headers are a part of both lists, and neither says `no-store`
  · obtain ⟨c, hparse, hc⟩ := noStore_of_saysNoStore (isParsed_of_read hread) hnoStore
    obtain ⟨c', hparse', hc'⟩ := noStore_of_saysNoStore hparsed hadmitted.1
    refine CacheControl.createFromHeaders_of_append hparse hc hparse' hc' fun e he => ?_
    rcases List.mem_append.mp ((combined_perm hcombined).subset he) with he | he
    · exact List.mem_append_left _ (List.mem_filter.mp he).1
    · exact List.mem_append_right _ (List.mem_filter.mp he).1
  · refine hlength.imp (fun hknown => ⟨cacheResponse.headers, ?_, ?_⟩)
      fun hchunked => ⟨cacheResponse.headers, ?_, hchunked⟩
    · exact writtenValues_of_read hread (combined_contentLength hcombined)
    · obtain ⟨o, -, -, -, -, hmembers⟩ := readResponse_ok hread
      rw [← hmembers]
      exact hknown
    -- a hop-by-hop header stays that of what is stored
    · have hitems := combined_named hcombined
        (by decide : lower HeaderNames.TransferEncoding ≠ lower HeaderNames.Warning)
      have hend : isEndToEnd HeaderNames.TransferEncoding = false := by decide
      rw [hend, Bool.not_false, Bool.true_or, Bool.or_true, if_pos rfl, Bool.and_false,
        if_neg Bool.false_ne_true, List.append_nil] at hitems
      exact writtenValues_of_read hread hitems

/-! ## A step -/

section
variable (poco : Poco) (json : PocoJson) (makeCacheKey : HttpMethod → String → String)

/-- The response was read from a row, and passes the checks. -/
def IsAdmitted (response : Response) : Prop :=
  (∃ key row, readResponse poco json key response.request row = .ok response) ∧
    passesChecks response = true

/-- What a call has in hand. -/
def StageAdmits : Stage → Prop
  | .sending _ found | .receiving _ found _ => ∀ f ∈ found, IsAdmitted poco json f.response
  | .updating found networkResponse combinedHeaders =>
    IsAdmitted poco json found.response ∧ IsParsed poco networkResponse ∧
      combineCacheAndNetworkHeader found.response networkResponse = .ok combinedHeaders
  | .rewriting _ _ httpCacheMetadata _ =>
    ∀ nowAtEpoch, RowPasses poco json httpCacheMetadata.key
      (httpCacheMetadata.toRow json nowAtEpoch)
  | .storing networkResponse _ =>
    IsParsed poco networkResponse ∧ IsMeasured poco networkResponse.headers
      networkResponse.hasContentLength networkResponse.contentLength ∧
        passesChecks networkResponse = true
  | _ => True

/-- Poco has read the content length of an answer from its header. -/
def AnswerMeasured (action : Action) : Prop :=
  match action.event with
  | .receive (.ok answer) _ => ∀ headers, Headers.empty.addAll answer.headers = .ok headers →
    IsMeasured poco headers answer.hasContentLength answer.contentLength
  | _ => True

/-- A body is closed, or metadata are read for an update, so that what is written then can be
stored. -/
def AdmitsAgain (s : System) (action : Action) : Prop :=
  match action.event, (s.tasks action.task).stage with
  | .close _ _ _, .storing networkResponse _ => StoresAdmitted networkResponse
  | .proceed, .updating found networkResponse _ =>
    ∀ row ∈ s.store.cache.disk.row (keyOf makeCacheKey found.response.request),
      UpdatesAdmitted found.response networkResponse row.statusCode
  | _, _ => True

/-- The invariant. -/
structure Inv (s : System) : Prop where
  rows : AllRows (RowPasses poco json) s.store.cache.disk
  stages : ∀ i, StageAdmits poco json (s.tasks i).stage

end

variable {s s' : System} {action : Action} {task : Task} {headerStore : HeaderStore}

/-- The time of the last access plays no part. -/
theorem ignoresAccess_rowPasses : IgnoresAccess (RowPasses poco json) := by
  intro key row row' hlike
  rintro ⟨response, hread, hpasses⟩
  exact ⟨response, (readResponse_like hlike).trans hread, hpasses⟩

/-- What is read from a row that passes is a response that was admitted. -/
theorem RowPasses.isAdmitted (h : RowPasses poco json key row) (request : Request)
    (hread : readResponse poco json key request row = .ok response) :
    IsAdmitted poco json response := by
  obtain ⟨stored, hstored, hpasses⟩ := h
  have hrequest : response.request = request := by
    obtain ⟨o, -, -, hrequest, -⟩ := readResponse_ok hread
    exact hrequest
  refine ⟨⟨key, row, by rw [hrequest]; exact hread⟩, ?_⟩
  rw [readResponse_request request hstored] at hread
  cases hread
  exact hpasses

/-- The metadata that a call reads are those of a row at hand. -/
theorem answer_row (h : AllRows (RowPasses poco json) s.store.cache.disk)
    {httpCacheMetadata : HttpCacheMetadata}
    (hanswer : answer (getMetadata json key) s action = .ok (some httpCacheMetadata)) :
    ∃ row, RowPasses poco json key row ∧ row.getMetadata json key = .ok httpCacheMetadata ∧
      ∃ stored ∈ s.store.cache.disk.row key, stored.Like row := by
  have hall : AllRows (fun k row =>
      RowPasses poco json k row ∧ ∃ stored ∈ s.store.cache.disk.row k, stored.Like row)
      s.store.cache.disk :=
    fun k row hrow => ⟨h k row hrow, row, hrow, rfl⟩
  obtain ⟨row, ⟨hpasses, hstored⟩, hmetadata⟩ := answer_allRows hall hanswer
  exact ⟨row, hpasses, hmetadata, hstored⟩

/-! ### What is in hand -/

/-- What the cache answers is admitted. -/
theorem stage_checkCache (h : AllRows (RowPasses poco json) s.store.cache.disk) :
    StageAdmits poco json (checkCache poco json makeCacheKey s action request headerStore) := by
  rcases checkCache_cases poco json makeCacheKey s action request headerStore with
    hafter | ⟨f, hafter, -⟩ | ⟨networkRequest, found, hafter, hall⟩
  · rw [hafter]
    trivial
  · rw [hafter]
    trivial
  · rw [hafter]
    intro f hf
    obtain ⟨-, m, hanswer, hcreate⟩ := hall f hf
    obtain ⟨row, hpasses, hmetadata, -⟩ := answer_row h hanswer
    refine hpasses.isAdmitted request ?_
    unfold readResponse
    rw [hmetadata]
    exact hcreate

/-- What a network response is made of. -/
theorem sendRequest_ok {env : Surroundings} {networkRequest : Request}
    (h : sendRequestAndReceiveResponseWithRetryByConnection poco env networkRequest =
      .ok response) : ∃ answer, env.network = .ok answer ∧
        Headers.empty.addAll answer.headers = .ok response.headers ∧ IsParsed poco response ∧
          response.hasContentLength = answer.hasContentLength ∧
            response.contentLength = answer.contentLength := by
  unfold sendRequestAndReceiveResponseWithRetryByConnection at h
  split at h
  · cases h
  obtain ⟨answer, hnetwork, h⟩ := exists_of_bind_ok h
  refine ⟨answer, hnetwork, ?_⟩
  unfold receiveResponse at h
  split at h
  · cases h
  · rename_i headers cacheControl hparse
    obtain ⟨headers', hadd, hparse⟩ := exists_of_bind_ok hparse
    obtain ⟨cacheControl', hcontrol, hparse⟩ := exists_of_bind_ok hparse
    cases hparse
    cases h
    exact ⟨hadd, ⟨cacheControl, hcontrol, rfl⟩, rfl, rfl⟩

/-- What is stored after a receipt passes the checks. -/
theorem stage_afterReceive {found : Option Found} {sentAt receivedAt : ℕ}
    (hfound : ∀ f ∈ found, IsAdmitted poco json f.response) (hparsed : IsParsed poco response)
    (hmeasured : IsMeasured poco response.headers response.hasContentLength
      response.contentLength) :
    StageAdmits poco json
      (afterReceive poco response found sentAt receivedAt headerStore) := by
  unfold afterReceive
  split
  · rename_i f hf
    have hf := (Option.filter_eq_some_iff.mp hf).1
    split
    · trivial
    · exact ⟨hfound f hf, hparsed, by assumption⟩
  split
  · exact ⟨hparsed, hmeasured, passesChecks_of_isCacheable (by assumption)⟩
  split
  · trivial
  · trivial

/-- A task that goes on keeps what it has admitted. -/
theorem stage_proceeds (hlaw : ∀ o, json.parse (json.stringify o) = some o) {stage : Stage}
    (h : Inv poco json s) (hevent : action.event = .proceed)
    (hadmits : AdmitsAgain makeCacheKey s action)
    (hproceeds : Proceeds json makeCacheKey s action (s.tasks action.task) stage) :
    StageAdmits poco json stage := by
  cases hproceeds with
  | @reread found networkResponse combinedHeaders httpCacheMetadata hstage hanswer =>
    have hhand := h.stages action.task
    rw [hstage] at hhand
    obtain ⟨⟨⟨key, row₀, hread⟩, hpasses⟩, hparsed, hcombined⟩ := hhand
    obtain ⟨row, hrow, hmetadata, stored, hmem, hlike⟩ := answer_row h.rows hanswer
    unfold AdmitsAgain at hadmits
    rw [hevent, hstage] at hadmits
    have hupdates := hadmits stored hmem
    obtain ⟨response, hstored, hchecked⟩ := hrow
    obtain ⟨o, -, -, -, hcode, -⟩ := readResponse_ok hstored
    have hcodes := isCacheableStatus_iff.mp (passesChecks_iff.mp hchecked).1
    have hsame : stored.statusCode = row.statusCode := by rw [hlike]
    rw [hcode] at hcodes
    rw [hsame] at hupdates
    obtain ⟨-, -, hstatus, -⟩ := getMetadata_ok hmetadata
    intro nowAtEpoch
    refine PassesWritten.rowPasses hlaw (?_ : PassesWritten poco httpCacheMetadata.statusCode
      combinedHeaders) rfl
    rw [hstatus]
    exact passesWritten_updated hread hpasses hparsed hcombined (hcodes.imp_right And.left) hupdates
  | _ => trivial

/-- A task that got an answer keeps what it has admitted. -/
theorem stage_resumes (hlaw : ∀ o, json.parse (json.stringify o) = some o)
    (h : Inv poco json s) (hmeasured : AnswerMeasured poco action)
    (hadmits : AdmitsAgain makeCacheKey s action)
    (hresumes : Resumes poco json makeCacheKey s action task) :
    StageAdmits poco json task.stage := by
  have hhand := h.stages action.task
  cases hresumes with
  | begun hevent => exact stage_checkCache h.rows
  | sent hstage =>
    rw [hstage] at hhand
    exact hhand
  | @received result headers networkRequest networkResponse found sentAt hevent hstage hanswer =>
    rw [hstage] at hhand
    obtain ⟨answer, hnetwork, hadd, hparsed, hhas, hlength⟩ := sendRequest_ok hanswer
    have hnetwork : result = .ok answer := hnetwork
    unfold AnswerMeasured at hmeasured
    rw [hevent, hnetwork] at hmeasured
    refine stage_afterReceive hhand hparsed ?_
    rw [hhas, hlength]
    exact hmeasured _ hadd
  | proceeded hevent hproceeds => exact stage_proceeds hlaw h hevent hadmits hproceeds
  | ended => trivial
  | same => exact hhand

/-! ### What is written -/

/-- The rows pass the checks after each step. -/
theorem rows_step (hlaw : ∀ o, json.parse (json.stringify o) = some o) (h : Inv poco json s)
    (hadmits : AdmitsAgain makeCacheKey s action)
    (hstep : step poco json makeCacheKey s action = some s') :
    AllRows (RowPasses poco json) s'.store.cache.disk := by
  have hhand := h.stages action.task
  refine (step_allWritten (B := fun _ => True) ignoresAccess_rowPasses
    ⟨h.rows, fun _ _ _ => trivial⟩ ?_ ?_ hstep).1
  · intro found networkResponse httpCacheMetadata serial _ hstage
    rw [hstage] at hhand
    exact hhand
  · intro content writtenDataSize path networkResponse receivedAt hevent hstage
    rw [hstage] at hhand
    unfold AdmitsAgain at hadmits
    rw [hevent, hstage] at hadmits
    obtain ⟨hparsed, hmeasured, hpasses⟩ := hhand
    have hwritten := passesWritten_stored hparsed hmeasured hpasses hadmits
    exact ⟨trivial, fun nowAtEpoch => hwritten.rowPasses hlaw rfl⟩

/-- Each step keeps the invariant. -/
theorem step_inv (hlaw : ∀ o, json.parse (json.stringify o) = some o) (s : System)
    (action : Action) (s' : System) (h : Inv poco json s)
    (hmeets : AnswerMeasured poco action ∧ AdmitsAgain makeCacheKey s action)
    (hstep : step poco json makeCacheKey s action = some s') : Inv poco json s' := by
  refine ⟨rows_step hlaw h hmeets.2 hstep, fun i => ?_⟩
  obtain ⟨task, store, hresume, -, rfl⟩ := step_some hstep
  show StageAdmits poco json (Function.update s.tasks action.task task i).stage
  by_cases hi : i = action.task
  · rw [hi, Function.update_self]
    exact stage_resumes hlaw h hmeets.1 hmeets.2 (resumes hresume)
  · rw [Function.update_of_ne hi]
    exact h.stages i

/-! ## Runs -/

section
variable {cacheRootDir : String} {maxSize : UInt64} {actions : List Action}

theorem inv_init (h : AllRows (RowPasses poco json) disk) :
    Inv poco json (System.init cacheRootDir maxSize disk) where
  rows := (keeps_initializeCache (B := fun _ => True) (construct cacheRootDir maxSize disk)).1 h
  stages := fun _ => trivial

/-- In every run whose steps write only what can be stored, and plain texts, every row passes the
checks; and the statements that were written give these rows. -/
theorem rows_stay_admitted {Conf : Type} {conf : Db.Poco Conf} {closesAtEnd : Bool}
    (hconf : Db.ContentValues.Documented conf closesAtEnd)
    (hlaw : ∀ o, json.parse (json.stringify o) = some o)
    (hrows : AllRows (RowPasses poco json) disk)
    (hmeasured : ∀ action ∈ actions, AnswerMeasured poco action)
    (hrun : Runs.run (step poco json makeCacheKey) (System.init cacheRootDir maxSize disk) actions =
      some s)
    (hplain : Runs.EveryStep (step poco json makeCacheKey)
      (PlainWrites json makeCacheKey closesAtEnd) (System.init cacheRootDir maxSize disk) actions)
    (hadmits : Runs.EveryStep (step poco json makeCacheKey) (AdmitsAgain makeCacheKey)
      (System.init cacheRootDir maxSize disk) actions) :
    AllRows (RowPasses poco json) s.store.cache.disk ∧
      Runs.EveryStep (step poco json makeCacheKey) (GivesRows json makeCacheKey conf)
        (System.init cacheRootDir maxSize disk) actions :=
  ⟨(Runs.run_invariant (step_inv hlaw) (inv_init hrows) hrun
    ((Runs.everyStep_of_forall hmeasured _).and hadmits)).rows,
    givesRows_of_plainWrites hconf hplain⟩

end

/-! ## An answer that says `no-store` -/

instance : Decidable (KeepsName headers key) := inferInstanceAs (Decidable (_ = _))

instance : Decidable (StoresAdmitted response) := inferInstanceAs (Decidable (_ ∧ _))

instance (statusCode : ℤ) : Decidable (UpdatesAdmitted response response' statusCode) :=
  inferInstanceAs (Decidable (_ ∧ _))

instance : Decidable (AdmitsAgain makeCacheKey s action) := by
  obtain ⟨task, event⟩ := action
  delta AdmitsAgain
  generalize (s.tasks _).stage = stage
  cases event <;> cases stage <;> infer_instance

instance (hasContentLength : Bool) (contentLength : Int64) :
    Decidable (IsMeasured poco headers hasContentLength contentLength) :=
  decidable_of_iff (hasContentLength = headers.has HeaderNames.ContentLength ∧
    (headers.has HeaderNames.ContentLength = true → contentLength =
      (poco.tryParse64 (headers.getValue HeaderNames.ContentLength "-1")).getD (-1)))
    ⟨fun h => ⟨h.1, h.2⟩, fun h => ⟨h.1, h.2⟩⟩

instance : Decidable (AnswerMeasured poco action) := by
  obtain ⟨task, event⟩ := action
  delta AnswerMeasured
  cases event with
  | receive network headerStore => cases network <;> infer_instance
  | _ => infer_instance

/-- A response with a body of three bytes is stored and later confirmed. -/
def confirmedRun (status : ℤ) (headers confirming : List (String × String)) : List Action :=
  ofTask 0 (asks status ((HeaderNames.ContentLength, "3") :: (HeaderNames.ETag, "v1") :: headers) ++
    [.close "abc" 3 "/temp/1"]) ++
  ofTask 1 ([.begin getRequest plainHeaderStore, .send,
    .receive (.ok ⟨304, "", confirming, false, -1, 0, 0⟩) plainHeaderStore] ++
      [.proceed, .proceed, .proceed])

/-- A redirect, whose `Cache-Control` is replaced by one that lets it be stored too. -/
def redirectRun : List Action :=
  confirmedRun 302 [(HeaderNames.CacheControl, "max-age=0")] [(HeaderNames.CacheControl, "private")]

/-- A response that says `no-store` at its validation only. -/
def noStoreRun : List Action := confirmedRun 200 [] [(HeaderNames.CacheControl, "no-store")]

theorem allRows_emptyDisk (P : String → Row → Prop) : AllRows P CacheReaders.emptyDisk := nofun

theorem rows_stay_admitted_redirect : ∃ s ∈
    Runs.run (step Poco.plain CacheReaders.plainJson plainKey)
      (System.init "/cache" 100 CacheReaders.emptyDisk) redirectRun,
      (s.store.cache.disk.row "get").isSome ∧ s.validations.length = 1 ∧
        AllRows (RowPasses Poco.plain CacheReaders.plainJson) s.store.cache.disk ∧
        Runs.EveryStep (step Poco.plain CacheReaders.plainJson plainKey)
          (GivesRows CacheReaders.plainJson plainKey Db.ContentValues.mapConfiguration)
          (System.init "/cache" 100 CacheReaders.emptyDisk) redirectRun := by
  have hran : ∃ s ∈ Runs.run (step Poco.plain CacheReaders.plainJson plainKey)
      (System.init "/cache" 100 CacheReaders.emptyDisk) redirectRun,
        (s.store.cache.disk.row "get").isSome ∧ s.validations.length = 1 := by decide +kernel
  obtain ⟨s, hrun, hrow, hlength⟩ := hran
  exact ⟨s, hrun, hrow, hlength, rows_stay_admitted Db.ContentValues.documented_mapConfiguration
    jsonParse_jsonStringify (allRows_emptyDisk _) (by decide +kernel) hrun (by decide +kernel)
    (by decide +kernel)⟩

/-- The entry stays, and what is read of it says `no-store`. -/
theorem not_rowPasses_noStore : ∃ s ∈ Runs.run (step Poco.plain CacheReaders.plainJson plainKey)
    (System.init "/cache" 100 CacheReaders.emptyDisk) noStoreRun,
      (∀ action ∈ noStoreRun, AnswerMeasured Poco.plain action) ∧
      (s.store.cache.entry "get").isSome ∧
      (∃ row ∈ s.store.cache.disk.row "get", ∃ response, readResponse Poco.plain
        CacheReaders.plainJson "get" getRequest row = .ok response ∧ saysNoStore response = true) ∧
      ¬AllRows (RowPasses Poco.plain CacheReaders.plainJson) s.store.cache.disk := by
  have hran : ∃ s ∈ Runs.run (step Poco.plain CacheReaders.plainJson plainKey)
      (System.init "/cache" 100 CacheReaders.emptyDisk) noStoreRun,
        (s.store.cache.entry "get").isSome ∧ ((s.store.cache.disk.row "get").bind fun row =>
          (readResponse Poco.plain CacheReaders.plainJson "get" getRequest row).toOption.map
            saysNoStore) = some true := by decide +kernel
  obtain ⟨s, hrun, hentry, hsays⟩ := hran
  obtain ⟨row, hrow, hsays⟩ := Option.bind_eq_some_iff.mp hsays
  obtain ⟨response, hread, hsays⟩ := Option.map_eq_some_iff.mp hsays
  have hread : readResponse Poco.plain CacheReaders.plainJson "get" getRequest row =
      .ok response := by
    cases h : readResponse Poco.plain CacheReaders.plainJson "get" getRequest row with
    | error e =>
      rw [h] at hread
      cases hread
    | ok stored =>
      rw [h] at hread
      cases hread
      rfl
  refine ⟨s, hrun, by decide +kernel, hentry, ⟨row, hrow, response, hread, hsays⟩, fun h => ?_⟩
  have hpasses := (RowPasses.isAdmitted (h "get" row hrow) getRequest hread).2
  rw [(passesChecks_iff.mp hpasses).2.1] at hsays
  cases hsays

end EasyHttp.Admission
