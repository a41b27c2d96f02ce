import EasyHttp.Cache.CombinedHeaders
import EasyHttp.Cache.HttpCacheStrategyTheorems
import EasyHttp.Engine.SharedCache
import EasyHttp.Message.HttpUtilTheorems

/-!
# The rows that belong to a stored body

A row of an entry is the one that was put with the body, or the work of a revalidation of that
body, which keeps the status and the size and combines the headers.

* `readResponse`: the stored response that a lookup makes of a row;
* `Belongs`: the rows that belong to what was put for an entry;
* `Belongs.sameEntity`: they all give the status and the content length of what was put;
* `Belongs.item_source`: each of their headers was put, or came with an answer that confirmed
  the entry.
-/

namespace EasyHttp.SharedCache

open Exec HttpConstants HttpCacheInternal HttpCacheStrategy HttpUtil
open ListMap (values)

/-! ## Reading a row -/

/-- The stored response of a row. -/
def readResponse (poco : Poco) (json : PocoJson) (key : String) (request : Request) (row : Row) :
    Except HttpException Response := do
  let httpCacheMetadata ← row.getMetadata json key
  createResponseFromCacheMetadata poco request httpCacheMetadata

/-- `hasContentLength` and `contentLength` of a stored response. -/
def contentLengthOf (poco : Poco) (headers : Headers) : Bool × Int64 :=
  if headers.has HeaderNames.ContentLength then
    match poco.tryParse64 (headers.getValue HeaderNames.ContentLength "-1") with
    | some contentLength => (true, contentLength)
    | none => (false, -1)
  else (false, -1)

/-- The same status and the same content length. -/
structure SameEntity (response response' : Response) : Prop where
  statusCode_eq : response'.statusCode = response.statusCode
  hasContentLength_eq : response'.hasContentLength = response.hasContentLength
  contentLength_eq : response'.contentLength = response.contentLength

variable {poco : Poco} {json : PocoJson} {key : String} {request : Request} {row row' : Row}
  {response response' : Response} {metadata : HttpCacheMetadata} {headers : Headers}
  {o : JsonObject} {item : String × String}

theorem SameEntity.refl (response : Response) : SameEntity response response := ⟨rfl, rfl, rfl⟩

theorem SameEntity.trans {response'' : Response} (h : SameEntity response response')
    (h' : SameEntity response' response'') : SameEntity response response'' :=
  ⟨h'.1.trans h.1, h'.2.trans h.2, h'.3.trans h.3⟩

/-- What a stored response is made of. -/
theorem createResponse_ok
    (h : createResponseFromCacheMetadata poco request metadata = .ok response) :
    ∃ headers, metadata.responseHeaders = some headers ∧ response.headers = headers ∧
      response.request = request ∧ response.statusCode = metadata.statusCode ∧
      response.body = none ∧
      (response.hasContentLength, response.contentLength) = contentLengthOf poco headers := by
  unfold createResponseFromCacheMetadata at h
  -- the `Cache-Control` headers must parse
  cases hcontrol : CacheControl.createFromHeaders poco metadata.responseHeaders with
  | error e =>
    rw [hcontrol] at h
    cases h
  | ok cacheControl =>
    rw [hcontrol] at h
    cases hheaders : metadata.responseHeaders with
    | none =>
      simp only [hheaders] at h
      cases h
    | some headers =>
      simp only [hheaders] at h
      refine ⟨headers, rfl, ?_⟩
      unfold contentLengthOf
      -- with a `Content-Length` its value, and otherwise no length
      by_cases hhas : headers.has HeaderNames.ContentLength = true
      · rw [if_pos hhas]
        simp only [hhas, if_true] at h
        cases hparse : poco.tryParse64 (headers.getValue HeaderNames.ContentLength "-1") with
        | none =>
          simp only [hparse] at h
          cases h
          exact ⟨rfl, rfl, rfl, rfl, rfl⟩
        | some contentLength =>
          simp only [hparse] at h
          cases h
          exact ⟨rfl, rfl, rfl, rfl, rfl⟩
      · rw [if_neg hhas]
        simp only [hhas] at h
        cases h
        exact ⟨rfl, rfl, rfl, rfl, rfl⟩

/-- What metadata are made of. -/
theorem getMetadata_ok (h : row.getMetadata json key = .ok metadata) :
    exchangeJsonStrToHeaders json.parse row.responseHeaderJson = .ok metadata.responseHeaders ∧
      metadata.key = key ∧ metadata.statusCode = row.statusCode ∧
      metadata.statusMessage = row.statusMessage ∧
      metadata.responseBodySize = row.responseBodySize := by
  obtain ⟨responseHeaders, hheaders, h⟩ := exists_of_bind_ok h
  cases h
  exact ⟨hheaders, rfl, rfl, rfl, rfl⟩

/-- What the headers in a row are made of. -/
theorem exchangeJson_ok {parse : String → Option JsonObject} {text : String}
    (h : exchangeJsonStrToHeaders parse text = .ok (some headers)) :
    ∃ o, parse text = some o ∧ Headers.empty.addAll o.entries = .ok headers := by
  unfold exchangeJsonStrToHeaders at h
  cases hparse : parse text with
  | none =>
    rw [hparse] at h
    cases h
  | some o =>
    rw [hparse] at h
    obtain ⟨headers', hadd, h⟩ := exists_of_bind_ok h
    cases h
    exact ⟨o, rfl, hadd⟩

/-- A response that is read has the row's status, headers and times. -/
theorem readResponse_ok (h : readResponse poco json key request row = .ok response) :
    ∃ o, json.parse row.responseHeaderJson = some o ∧
      Headers.empty.addAll o.entries = .ok response.headers ∧ response.request = request ∧
      response.statusCode = row.statusCode ∧
      (response.hasContentLength, response.contentLength) =
        contentLengthOf poco response.headers := by
  obtain ⟨metadata, hmetadata, hcreate⟩ := exists_of_bind_ok h
  obtain ⟨hjson, -, hstatus, -⟩ := getMetadata_ok hmetadata
  obtain ⟨headers, hheaders, rfl, hrequest, hcode, -, hlength⟩ := createResponse_ok hcreate
  rw [hheaders] at hjson
  obtain ⟨o, hparse, hadd⟩ := exchangeJson_ok hjson
  exact ⟨o, hparse, hadd, hrequest, hcode.trans hstatus, hlength⟩

/-- The time of the last access is not read. -/
theorem readResponse_like (h : row.Like row') :
    readResponse poco json key request row' = readResponse poco json key request row := by
  rw [h]
  rfl

/-- The request plays no part in what is read. -/
theorem readResponse_request (request' : Request)
    (h : readResponse poco json key request row = .ok response) :
    readResponse poco json key request' row = .ok { response with request := request' } := by
  obtain ⟨metadata, hmetadata, hcreate⟩ := exists_of_bind_ok h
  unfold readResponse
  rw [hmetadata]
  show createResponseFromCacheMetadata poco request' metadata = _
  unfold createResponseFromCacheMetadata at hcreate ⊢
  obtain ⟨cacheControl, hcontrol, hcreate⟩ := exists_of_bind_ok hcreate
  cases hheaders : metadata.responseHeaders with
  | none =>
    rw [hheaders] at hcreate
    cases hcreate
  | some headers =>
    simp only [hheaders] at hcreate hcontrol ⊢
    rw [hcontrol]
    simp only [bind, Except.bind]
    by_cases hhas : headers.has HeaderNames.ContentLength = true
    · simp only [hhas, if_true] at hcreate ⊢
      cases hparse : poco.tryParse64 (headers.getValue HeaderNames.ContentLength "-1") with
      | none =>
        simp only [hparse] at hcreate ⊢
        cases hcreate
        rfl
      | some contentLength =>
        simp only [hparse] at hcreate ⊢
        cases hcreate
        rfl
    · simp only [hhas] at hcreate ⊢
      cases hcreate
      rfl

theorem contentLengthOf_congr {headers' : Headers} (h : headers'.getValues HeaderNames.ContentLength =
    headers.getValues HeaderNames.ContentLength) :
    contentLengthOf poco headers' = contentLengthOf poco headers := by
  unfold contentLengthOf
  rw [Headers.has_eq, Headers.has_eq, Headers.getValue_eq, Headers.getValue_eq, h]

/-! ## What a lookup finds -/

/-- Added headers change nothing else. -/
theorem foldlM_addHeader_headers {items : List (String × String)}
    (h : items.foldlM (fun responseBuilder header =>
      responseBuilder.addHeader header.1 header.2) response = Except.ok response') :
    ∃ headers, response' = { response with headers := headers } := by
  induction items generalizing response with
  | nil =>
    cases h
    exact ⟨_, rfl⟩
  | cons item items ih =>
    rw [List.foldlM_cons] at h
    obtain ⟨next, hadd, h⟩ := exists_of_bind_ok h
    obtain ⟨headers, rfl⟩ := ih h
    unfold Response.addHeader at hadd
    split at hadd
    · cases hadd
    · obtain ⟨added, -, hadd⟩ := exists_of_bind_ok hadd
      cases hadd
      exact ⟨headers, rfl⟩

/-- Warnings are headers. -/
theorem withWarnings_same {p : Prepared} {c : AgeCondition} (hbody : p.cacheResponse.body = none)
    (h : withWarnings p c = .ok response) :
    SameEntity p.cacheResponse response ∧ response.request = p.cacheResponse.request := by
  unfold withWarnings at h
  split at h
  · obtain ⟨last, hlast, h⟩ := exists_of_bind_ok h
    obtain ⟨headers, rfl⟩ := foldlM_addHeader_headers hlast
    cases h
    unfold Response.build
    rw [hbody]
    exact ⟨⟨rfl, rfl, rfl⟩, rfl⟩
  · cases h
    exact ⟨SameEntity.refl _, rfl⟩

/-- What a strategy makes of a stored response: it is asked about as it is, or it is used. -/
theorem resolve_cacheResponse {p : Prepared} {headers headers' : HeaderStore}
    {strategy : HttpCacheStrategy} (hbody : p.cacheResponse.body = none)
    (h : exec (resolveCacheResponseAndNetworkRequest poco request p) headers =
      (.ok strategy, headers')) (hsome : strategy.cacheResponse = some response) :
    SameEntity p.cacheResponse response ∧ response.request = p.cacheResponse.request ∧
      (strategy.networkRequest ≠ none → response = p.cacheResponse) := by
  cases hc : ageCondition poco request.cacheControl p with
  | error e =>
    rw [exec_resolve_error hc] at h
    cases h
  | ok c =>
    -- a fresh response is answered, with warnings
    by_cases hfresh : isFresh p c = true
    · obtain ⟨found, hfound, hrun⟩ := exec_resolve_fresh hc hfresh headers
      rw [hrun] at h
      cases h
      cases hsome
      obtain ⟨hsame, hrequest⟩ := withWarnings_same hbody hfound
      exact ⟨hsame, hrequest, fun hne => absurd rfl hne⟩
    rw [Bool.not_eq_true] at hfresh
    cases honly : request.cacheControl.onlyIfCached with
    | true =>
      rw [exec_resolve_onlyIfCached hc hfresh honly] at h
      cases h
      cases hsome
    | false =>
      rw [exec_resolve_stale hc hfresh honly] at h
      -- with a validator the request is made conditional, without one it is sent as it was
      cases hcond : conditionalRequestHeader p.cacheResponse with
      | none =>
        rw [exec_createNetworkRequest_none hcond] at h
        cases h
        cases hsome
      | some header =>
        rw [exec_createNetworkRequest_some hcond] at h
        cases h
        cases hsome
        exact ⟨SameEntity.refl _, rfl, fun _ => rfl⟩

/-- The stored response of a strategy was made from the metadata that were found. -/
theorem createCacheStrategy_cacheResponse {found : Option HttpCacheMetadata} {nowAtEpoch : UInt64}
    {headers headers' : HeaderStore} {strategy : HttpCacheStrategy}
    (h : exec (createCacheStrategy poco request found nowAtEpoch) headers =
      (.ok strategy, headers')) (hsome : strategy.cacheResponse = some response) :
    ∃ metadata stored, found = some metadata ∧
      createResponseFromCacheMetadata poco request metadata = .ok stored ∧
      SameEntity stored response ∧ response.request = request ∧
      (strategy.networkRequest ≠ none → response = stored) := by
  cases found with
  | none =>
    cases h
    cases hsome
  | some metadata =>
    unfold createCacheStrategy at h
    cases hcreate : createResponseFromCacheMetadata poco request metadata with
    | error e =>
      dsimp only at h
      rw [hcreate, exec_bind_error (exec_lift _ _)] at h
      cases h
    | ok stored =>
      dsimp only at h
      rw [hcreate, exec_bind_ok (exec_lift _ _)] at h
      obtain ⟨_, -, -, hrequest, -, hbody, -⟩ := createResponse_ok hcreate
      obtain ⟨hsame, hresponse, hwhole⟩ := resolve_cacheResponse hbody h hsome
      exact ⟨metadata, stored, rfl, hcreate, hsame, hresponse.trans hrequest, hwhole⟩

/-! ## Rows that belong to a body -/

/-- The rows that belong to what was put for an entry: the one put with it, also when it has been
read since, and what `updateCache` makes of such a row with an answer that confirmed a response
read from such a row. -/
inductive Belongs (poco : Poco) (json : PocoJson) (validations : List Validation) (key : String)
    (serial : ℕ) (put : Put) : Row → Prop
  | stored {row : Row} (hput : put.row = some row) :
    Belongs poco json validations key serial put row
  | accessed {row row' : Row} (h : Belongs poco json validations key serial put row)
    (hlike : row.Like row') : Belongs poco json validations key serial put row'
  | revalidated {found reread : Row} {validation : Validation} {metadata : HttpCacheMetadata}
    {request : Request} {combined : Headers} (nowAtEpoch : Int64)
    (hfound : Belongs poco json validations key serial put found)
    (hreread : Belongs poco json validations key serial put reread)
    (hmem : validation ∈ validations) (hkey : validation.key = key)
    (hserial : validation.found.serial = serial)
    (hread : readResponse poco json key request found = .ok validation.found.response)
    (hvalid :
      isValidCacheResponse poco validation.found.response validation.networkResponse = true)
    (hmetadata : reread.getMetadata json key = .ok metadata)
    (hcombined : combineCacheAndNetworkHeader validation.found.response
      validation.networkResponse = .ok combined) :
    Belongs poco json validations key serial put
      ((updatedMetadata metadata validation.networkResponse combined).toRow json nowAtEpoch)

/-! ### Where headers come from -/

/-- A header of the row that was put. -/
def WasPut (json : PocoJson) (put : Put) (item : String × String) : Prop :=
  ∃ first o, put.row = some first ∧ json.parse first.responseHeaderJson = some o ∧
    item ∈ o.entries

/-- The answer says that nothing was modified, or it is older than the stored response. -/
def Confirms (poco : Poco) (cacheResponse networkResponse : Response) : Prop :=
  networkResponse.statusCode = 304 ∨ ∃ cached network,
    headerDate poco cacheResponse HeaderNames.LastModified = some cached ∧
      headerDate poco networkResponse HeaderNames.LastModified = some network ∧
        network.microseconds < cached.microseconds

/-- A header of an answer that confirmed the entry, in the given sense. -/
def CameWith (confirms : Response → Response → Prop) (validations : List Validation)
    (key : String) (serial : ℕ) (item : String × String) : Prop :=
  ∃ validation ∈ validations, validation.key = key ∧ validation.found.serial = serial ∧
    confirms validation.found.response validation.networkResponse ∧
      item ∈ validation.networkResponse.headers.items

/-- The code's check is that the server has confirmed the response. -/
theorem isValidCacheResponse_iff :
    isValidCacheResponse poco response response' = true ↔ Confirms poco response response' := by
  unfold isValidCacheResponse Confirms
  by_cases hcode : response'.statusCode = 304
  · simp [hcode]
  · rw [if_neg hcode]
    cases headerDate poco response HeaderNames.LastModified <;>
      cases headerDate poco response' HeaderNames.LastModified <;> simp [hcode]

namespace Belongs

variable {validations validations' : List Validation} {serial : ℕ} {put : Put}

theorem mono (h : Belongs poco json validations key serial put row)
    (hsub : validations ⊆ validations') : Belongs poco json validations' key serial put row := by
  induction h with
  | stored hput => exact stored hput
  | accessed _ hlike ih => exact accessed ih hlike
  | revalidated nowAtEpoch _ _ hmem hkey hserial hread hvalid hmetadata hcombined ih ih' =>
    exact revalidated nowAtEpoch ih ih' (hsub hmem) hkey hserial hread hvalid hmetadata hcombined

/-- The status and the size of the body stay as they were put. -/
theorem same (h : Belongs poco json validations key serial put row) :
    ∃ first, put.row = some first ∧ row.statusCode = first.statusCode ∧
      row.statusMessage = first.statusMessage ∧
      row.responseBodySize = first.responseBodySize := by
  induction h with
  | @stored row hput => exact ⟨row, hput, rfl, rfl, rfl⟩
  | accessed _ hlike ih =>
    rw [hlike]
    exact ih
  | revalidated _ _ _ _ _ _ _ _ hmetadata _ _ ih =>
    obtain ⟨first, hput, hstatus, hmessage, hsize⟩ := ih
    obtain ⟨-, -, hstatus', hmessage', hsize'⟩ := getMetadata_ok hmetadata
    exact ⟨first, hput, hstatus'.trans hstatus, hmessage'.trans hmessage, hsize'.trans hsize⟩

/-- Every row gives a response with the status and the content length of what was put. -/
theorem sameEntity (hlaw : ∀ o, json.parse (json.stringify o) = some o)
    (h : Belongs poco json validations key serial put row)
    (hread : readResponse poco json key request row = .ok response) :
    ∃ first stored, put.row = some first ∧
      readResponse poco json key request first = .ok stored ∧ SameEntity stored response := by
  -- induction on how the row came about: put, accessed, revalidated
  induction h generalizing request response with
  | @stored row hput => exact ⟨row, response, hput, hread, SameEntity.refl _⟩
  | accessed _ hlike ih => exact ih ((readResponse_like hlike).symm.trans hread)
  | @revalidated found reread validation metadata asked combined now hfound hreread hmem hkey
      hserial hasked hvalid hmetadata hcombined ih ih' =>
    -- the confirmed response was read from a row of the same put
    obtain ⟨first, stored, hput, hfirst, hsame⟩ := ih hasked
    refine ⟨first, { stored with request := request }, hput, readResponse_request request hfirst, ?_⟩
    have hall : SameEntity stored response := by
      refine hsame.trans ?_
      obtain ⟨o, hparse, hadd, -, hstatus, hlength⟩ := readResponse_ok hread
      obtain ⟨o₀, -, hadd₀, -, hstatus₀, hlength₀⟩ := readResponse_ok hasked
      -- what was written is the JSON object of the combined headers
      have ho : headersToJson combined = o := Option.some.inj ((hlaw _).symm.trans hparse)
      have hcode : response.statusCode = validation.found.response.statusCode := by
        obtain ⟨row₁, hrow₁, hstatus₁, -⟩ := hfound.same
        obtain ⟨row₂, hrow₂, hstatus₂, -⟩ := hreread.same
        have hrow : row₂ = row₁ := Option.some.inj (hrow₂.symm.trans hrow₁)
        have hmeta : metadata.statusCode = reread.statusCode := (getMetadata_ok hmetadata).2.2.1
        rw [hstatus, hstatus₀, hstatus₁, ← hrow, ← hstatus₂, ← hmeta]
        rfl
      -- a revalidation keeps the `Content-Length` of what is stored
      have hvalues : response.headers.getValues HeaderNames.ContentLength =
          validation.found.response.headers.getValues HeaderNames.ContentLength := by
        have hitems : (combined.items.filter
            fun e => lower e.1 = lower HeaderNames.ContentLength).Perm
            (o₀.entries.filter fun e => lower e.1 = lower HeaderNames.ContentLength) := by
          refine (combined_contentLength hcombined).trans (List.Perm.filter _ ?_)
          exact (Headers.addAll_perm hadd₀).trans (List.Perm.of_eq (List.nil_append _))
        have hwritten := values_headersToJson HeaderNames.ContentLength hitems
        unfold Headers.getValues
        rw [Headers.items_addAll hadd, Headers.items_addAll hadd₀,
          ListMap.values_foldl_insert lower _ Headers.empty.grouped,
          ListMap.values_foldl_insert lower _ Headers.empty.grouped, ← ho, hwritten]
      have hboth : (response.hasContentLength, response.contentLength) =
          (validation.found.response.hasContentLength,
            validation.found.response.contentLength) := by
        rw [hlength, hlength₀, contentLengthOf_congr hvalues]
      exact ⟨hcode, congrArg Prod.fst hboth, congrArg Prod.snd hboth⟩
    exact ⟨hall.1, hall.2, hall.3⟩

/-- Every header of a row was put, or came with an answer that confirmed the entry. -/
theorem item_source (hlaw : ∀ o, json.parse (json.stringify o) = some o)
    (h : Belongs poco json validations key serial put row)
    (hparse : json.parse row.responseHeaderJson = some o) (hitem : item ∈ o.entries) :
    WasPut json put item ∨ CameWith (Confirms poco) validations key serial item := by
  induction h generalizing o with
  | @stored row hput => exact .inl ⟨row, o, hput, hparse, hitem⟩
  | accessed _ hlike ih =>
    rw [hlike] at hparse
    exact ih hparse hitem
  | @revalidated found reread validation metadata asked combined now hfound hreread hmem hkey
      hserial hasked hvalid hmetadata hcombined ih =>
    have ho : headersToJson combined = o := Option.some.inj ((hlaw _).symm.trans hparse)
    rw [← ho] at hitem
    have hcame := (combined_perm hcombined).subset (mem_headersToJson hitem)
    rw [List.mem_append] at hcame
    rcases hcame with hcached | hnetwork
    · obtain ⟨o₀, hparse₀, hadd₀, -⟩ := readResponse_ok hasked
      have hread := (Headers.addAll_perm hadd₀).subset (List.mem_filter.mp hcached).1
      rw [Headers.items_empty, List.nil_append] at hread
      exact ih hparse₀ hread
    · exact .inr ⟨validation, hmem, hkey, hserial, isValidCacheResponse_iff.mp hvalid,
        (List.mem_filter.mp hnetwork).1⟩

end Belongs

end EasyHttp.SharedCache
