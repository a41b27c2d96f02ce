import EasyHttp.Engine.HttpEngineTheorems
import EasyHttp.Library.UriText
import Mathlib.Data.Bool.AllAny

/-!
# Where a redirect leads

`makeRetryRequest` decodes the whole `Location` before it is split into parts, and parses the
result outside any `try`.

* `FollowsSyntax`: the library's `URI` reads texts as `UriText` does;
* `exec_makeRetryRequest`: what `makeRetryRequest` makes of a decoded `Location`;
* `keepsTarget_isRightTarget`: when the next request asks for what `Location` names and nothing
  but an `HttpException` is thrown.
-/

namespace EasyHttp

open HttpConstants Exec

/-- What is assumed of `Poco::URI`; the messages of its exceptions are its own. -/
structure Poco.FollowsSyntax (poco : Poco) (ports : UriText.Ports) : Prop where
  decode_eq : ∀ text, (poco.decode text).toOption =
    (UriText.decode text.toList).map String.ofList
  uri_eq : ∀ text, (poco.uri text).toOption.map (fun uri => (uri.scheme, uri.host, uri.port)) =
    (UriText.parse ports text.toList).map
      fun parts => (String.ofList parts.scheme, String.ofList parts.host, parts.port)

namespace Poco.FollowsSyntax

variable {poco : Poco} {ports : UriText.Ports}

/-- The library's decoding is that of the text. -/
theorem decode_ok {text decoded : String} (h : poco.FollowsSyntax ports) :
    poco.decode text = .ok decoded ↔ UriText.decode text.toList = some decoded.toList := by
  have heq := h.decode_eq text
  cases hdecode : poco.decode text with
  | error message =>
    rw [hdecode] at heq
    have hnone : UriText.decode text.toList = none := Option.map_eq_none_iff.mp heq.symm
    simp [hnone]
  | ok result =>
    rw [hdecode] at heq
    obtain ⟨chars, hchars, hresult⟩ := Option.map_eq_some_iff.mp heq.symm
    have hlist : result.toList = chars := by rw [← hresult, String.toList_ofList]
    rw [hchars, ← hlist, Except.ok.injEq, Option.some_inj, String.toList_inj]

/-- The library parses exactly what the syntax parses. -/
theorem uri_isOk (h : poco.FollowsSyntax ports) (text : String) :
    (poco.uri text).isOk = (UriText.parse ports text.toList).isSome := by
  have heq := congrArg Option.isSome (h.uri_eq text)
  rw [Option.isSome_map, Option.isSome_map] at heq
  rw [← heq]
  cases poco.uri text with
  | error message => rfl
  | ok uri => rfl

theorem scheme_eq {text : String} {uri : Uri} {parts : UriText.Parts}
    (h : poco.FollowsSyntax ports) (huri : poco.uri text = .ok uri)
    (hparts : UriText.parse ports text.toList = some parts) :
    uri.scheme = String.ofList parts.scheme := by
  have heq := h.uri_eq text
  rw [huri, hparts] at heq
  exact congrArg (fun o => (o.getD ("", "", 0)).1) heq

end Poco.FollowsSyntax

namespace HttpEngine

variable {poco : Poco} {request : Request} {beforeUri resolvedUri : Uri} {resolvedUrl : String}
  {s : HeaderStore}

/-! ## What `makeRetryRequest` does -/

/-- A URL that is parsed is a URL. -/
theorem parseUri_ok {url : String} {uri : Uri} (h : poco.uri url = .ok uri) :
    poco.parseUri url = .ok uri := by
  unfold Poco.parseUri
  rw [h]

/-- A URL that is not parsed is an exception of the library. -/
theorem parseUri_error {url message : String} (h : poco.uri url = .error message) :
    poco.parseUri url = .error (.poco message) := by
  unfold Poco.parseUri
  rw [h]

/-- The parser's exception for the resolved URL is not caught. -/
theorem exec_buildRetryRequest_error {message : String}
    (hbefore : poco.uri request.url = .ok beforeUri)
    (hresolved : poco.uri resolvedUrl = .error message) :
    exec (buildRetryRequest poco request resolvedUrl) s = (.error (.poco message), s) := by
  unfold buildRetryRequest
  rw [exec_bind_ok (by rw [exec_lift, parseUri_ok hbefore]),
    exec_bind_error (by rw [exec_lift, parseUri_error hresolved])]

/-- Nothing is asked for under another scheme. -/
theorem exec_buildRetryRequest_none (hbefore : poco.uri request.url = .ok beforeUri)
    (hresolved : poco.uri resolvedUrl = .ok resolvedUri)
    (hscheme : beforeUri.scheme ≠ resolvedUri.scheme) :
    exec (buildRetryRequest poco request resolvedUrl) s = (.ok none, s) := by
  unfold buildRetryRequest
  rw [exec_bind_ok (by rw [exec_lift, parseUri_ok hbefore]),
    exec_bind_ok (by rw [exec_lift, parseUri_ok hresolved]),
    if_pos (by simp [hscheme, EnableSchemeChangedRedirect])]
  rfl

/-- With the same scheme there is a request, and its URL is the resolved one. -/
theorem exec_buildRetryRequest_some (hne : resolvedUrl ≠ "")
    (hbefore : poco.uri request.url = .ok beforeUri)
    (hresolved : poco.uri resolvedUrl = .ok resolvedUri)
    (hscheme : beforeUri.scheme = resolvedUri.scheme) :
    ∃ retryRequest s', exec (buildRetryRequest poco request resolvedUrl) s =
      (.ok (some retryRequest), s') ∧ retryRequest.url = resolvedUrl := by
  obtain ⟨p, hp⟩ := keepsHeader_eq beforeUri resolvedUri
  obtain ⟨retryHeaders, hadd, -⟩ := (s.deref request.headers).addAll_filter p
  rw [← hp] at hadd
  have hurl : (RequestBuilder.ofRequest request).setUrl poco resolvedUrl =
      .ok { RequestBuilder.ofRequest request with url := resolvedUrl } := by
    unfold RequestBuilder.setUrl
    rw [if_neg hne, hresolved]
  unfold buildRetryRequest
  rw [exec_bind_ok (by rw [exec_lift, parseUri_ok hbefore]),
    exec_bind_ok (by rw [exec_lift, parseUri_ok hresolved]), if_neg (by simp [hscheme]),
    exec_bind_ok (Store.exec_readCell _ _), exec_bind_ok (by rw [exec_lift, hadd]),
    exec_bind_ok (Store.exec_newCell _ _), exec_bind_ok (by rw [exec_lift, hurl])]
  exact ⟨_, _, rfl, rfl⟩

/-! ## The request for a redirect -/

/-- The value of the `Location` header, empty when there is none. -/
def location (response : Response) : String :=
  response.getHeaderValue HeaderNames.Location ""

/-- Without the header there is no location. -/
theorem location_eq_of_not_hasHeader {response : Response}
    (h : response.hasHeader HeaderNames.Location = false) : location response = "" := by
  unfold Response.hasHeader Headers.has at h
  unfold location Response.getHeaderValue Headers.getValue
  cases hfind : ListMap.find? lower HeaderNames.Location response.headers.items with
  | none => rfl
  | some e =>
    rw [hfind] at h
    cases h

/-- Without anything to follow the answer is NULL. -/
theorem makeRetryRequest_none {response : Response}
    (h : location response = "" ∨ ∀ resolvedUrl, poco.decode (location response) = .ok resolvedUrl →
      resolvedUrl = "") : makeRetryRequest poco response = pure none := by
  unfold makeRetryRequest
  by_cases hhas : response.hasHeader HeaderNames.Location = true
  · rw [if_neg (by simp [hhas])]
    show (if location response = "" then _ else _) = _
    by_cases hempty : location response = ""
    · rw [if_pos hempty]
    rw [if_neg hempty]
    unfold location at h hempty
    cases hdecode : poco.decode (response.getHeaderValue HeaderNames.Location "") with
    | error message => rfl
    | ok resolvedUrl => exact if_pos (h.resolve_left hempty resolvedUrl hdecode)
  · rw [if_pos (by simpa using hhas)]

/-- With a location the next request is built from the decoded text. -/
theorem makeRetryRequest_eq {response : Response} (hlocation : location response ≠ "")
    (hdecode : poco.decode (location response) = .ok resolvedUrl) (hne : resolvedUrl ≠ "") :
    makeRetryRequest poco response = buildRetryRequest poco response.request resolvedUrl := by
  have hhas : response.hasHeader HeaderNames.Location = true := by
    by_contra hnot
    exact hlocation (location_eq_of_not_hasHeader (by simpa using hnot))
  unfold makeRetryRequest
  rw [if_neg (by simp [hhas])]
  show (if location response = "" then _ else _) = _
  rw [if_neg hlocation]
  unfold location at hdecode
  rw [hdecode]
  exact if_neg hne

/-! ## The target -/

variable {ports : UriText.Ports} {response : Response}

/-- A `Location` that is an absolute URI with the scheme of the request leads to a request for
its target, and no `Location` lets an exception of the library escape. -/
def IsRightTarget (poco : Poco) (ports : UriText.Ports) (beforeUri : Uri) (response : Response)
    (s : HeaderStore) : Prop :=
  (∀ u : UriText.AbsoluteUri ports, location response = String.ofList u.text →
    String.ofList u.parts.scheme = beforeUri.scheme →
    ∃ retryRequest s', exec (makeRetryRequest poco response) s = (.ok (some retryRequest), s') ∧
      ∃ target, UriText.parse ports retryRequest.url.toList = some target ∧
        UriText.SameTarget target u.parts) ∧
  ∀ message s', exec (makeRetryRequest poco response) s ≠ (.error (.poco message), s')

/-- A followed URI has no escape in its host or its query, none of the others stands for a
delimiter or for a percent sign, and what `Location` stands for can be parsed. -/
structure KeepsTarget (ports : UriText.Ports) (beforeUri : Uri) (location : String) : Prop where
  survives : ∀ u : UriText.AbsoluteUri ports, location = String.ofList u.text →
    String.ofList u.parts.scheme = beforeUri.scheme → u.Survives
  parses : ∀ text, UriText.decode location.toList = some text → text ≠ [] →
    (UriText.parse ports text).isSome

/-- What stands in `Location` is decoded to a text, or it is not followed. -/
theorem decode_location (h : poco.FollowsSyntax ports) {text : List Char}
    (hdecode : UriText.decode (location response).toList = some text) (hne : text ≠ []) :
    makeRetryRequest poco response =
      buildRetryRequest poco response.request (String.ofList text) := by
  have hresolved : poco.decode (location response) = .ok (String.ofList text) := by
    rw [h.decode_ok, hdecode, String.toList_ofList]
  have hlocation : location response ≠ "" := by
    intro hempty
    rw [hempty] at hdecode
    cases hdecode
    exact hne rfl
  have htext : String.ofList text ≠ "" := by
    intro hempty
    have hlist := congrArg String.toList hempty
    rw [String.toList_ofList] at hlist
    exact hne hlist
  exact makeRetryRequest_eq hlocation hresolved htext

/-- An exception of the library escapes only when the decoded text cannot be parsed. -/
theorem forall_parses_iff (h : poco.FollowsSyntax ports)
    (hbefore : poco.uri response.request.url = .ok beforeUri) :
    (∀ text, UriText.decode (location response).toList = some text → text ≠ [] →
      (UriText.parse ports text).isSome) ↔
    ∀ message s', exec (makeRetryRequest poco response) s ≠ (.error (.poco message), s') := by
  constructor
  · intro hparses message s' hexec
    -- what cannot be decoded, and what decodes to nothing, is never asked for
    cases hdecode : UriText.decode (location response).toList with
    | none =>
      have hnone : makeRetryRequest poco response = pure none := by
        refine makeRetryRequest_none (.inr fun resolvedUrl hok => ?_)
        rw [h.decode_ok, hdecode] at hok
        cases hok
      rw [hnone] at hexec
      cases hexec
    | some text =>
      by_cases hne : text = []
      · have hnone : makeRetryRequest poco response = pure none := by
          refine makeRetryRequest_none (.inr fun resolvedUrl hok => ?_)
          rw [h.decode_ok, hdecode, hne, Option.some_inj] at hok
          rw [← String.toList_inj, ← hok]
          rfl
        rw [hnone] at hexec
        cases hexec
      · have hsome := hparses text hdecode hne
        have hok := h.uri_isOk (String.ofList text)
        rw [String.toList_ofList, hsome] at hok
        rw [decode_location h hdecode hne] at hexec
        have htext : String.ofList text ≠ "" := by
          intro hempty
          have hlist := congrArg String.toList hempty
          rw [String.toList_ofList] at hlist
          exact hne hlist
        cases hresolved : poco.uri (String.ofList text) with
        | error message' =>
          rw [hresolved] at hok
          cases hok
        | ok resolvedUri =>
          by_cases hscheme : beforeUri.scheme = resolvedUri.scheme
          · obtain ⟨retryRequest, s'', hsome', -⟩ :=
              exec_buildRetryRequest_some (s := s) htext hbefore hresolved hscheme
            rw [hsome'] at hexec
            cases hexec
          · rw [exec_buildRetryRequest_none hbefore hresolved hscheme] at hexec
            cases hexec
  · intro hnever text hdecode hne
    -- a decoded text that does not parse makes `buildRetryRequest` throw
    by_contra hnot
    have hok := h.uri_isOk (String.ofList text)
    rw [String.toList_ofList] at hok
    cases hresolved : poco.uri (String.ofList text) with
    | ok resolvedUri =>
      rw [hresolved] at hok
      exact hnot hok.symm
    | error message =>
      have herror := exec_buildRetryRequest_error (s := s) hbefore hresolved
      rw [← decode_location h hdecode hne] at herror
      exact hnever message s herror

/-- For a URI that is followed, the next request asks for what the decoded text names. -/
theorem exec_makeRetryRequest_uri (h : poco.FollowsSyntax ports)
    (hbefore : poco.uri response.request.url = .ok beforeUri) {u : UriText.AbsoluteUri ports}
    (hlocation : location response = String.ofList u.text) :
    (∃ retryRequest s', exec (makeRetryRequest poco response) s = (.ok (some retryRequest), s') ∧
      ∃ target, UriText.parse ports retryRequest.url.toList = some target ∧
        UriText.SameTarget target u.parts) ↔
    ∃ target, UriText.parse ports u.decodedText = some target ∧
      String.ofList target.scheme = beforeUri.scheme ∧ UriText.SameTarget target u.parts := by
  have hdecode : UriText.decode (location response).toList = some u.decodedText := by
    rw [hlocation, String.toList_ofList, u.decode_text]
  have hne : u.decodedText ≠ [] := by
    intro hempty
    have hlen := congrArg List.length hempty
    unfold UriText.AbsoluteUri.decodedText at hlen
    rw [List.length_append] at hlen
    simp only [List.length_cons, List.length_nil] at hlen
    omega
  -- the decoded location is not empty, so a request is built from it
  have htext : String.ofList u.decodedText ≠ "" := by
    intro hempty
    have hlist := congrArg String.toList hempty
    rw [String.toList_ofList] at hlist
    exact hne hlist
  rw [decode_location h hdecode hne]
  have hok := h.uri_isOk (String.ofList u.decodedText)
  rw [String.toList_ofList] at hok
  constructor
  · intro hright
    obtain ⟨retryRequest, s', hexec, target, hparse, hsame⟩ := hright
    cases hresolved : poco.uri (String.ofList u.decodedText) with
    | error message =>
      rw [exec_buildRetryRequest_error hbefore hresolved] at hexec
      cases hexec
    | ok resolvedUri =>
      -- a request that was built has the scheme of the one before
      by_cases hscheme : beforeUri.scheme = resolvedUri.scheme
      · obtain ⟨retryRequest', s'', hexec', hurl⟩ :=
          exec_buildRetryRequest_some (s := s) htext hbefore hresolved hscheme
        rw [hexec'] at hexec
        cases hexec
        rw [hurl, String.toList_ofList] at hparse
        have htarget := h.scheme_eq hresolved (by rw [String.toList_ofList]; exact hparse)
        exact ⟨target, hparse, htarget.symm.trans hscheme.symm, hsame⟩
      · rw [exec_buildRetryRequest_none hbefore hresolved hscheme] at hexec
        cases hexec
  · intro hkept
    obtain ⟨target, hparse, hscheme, hsame⟩ := hkept
    rw [hparse] at hok
    cases hresolved : poco.uri (String.ofList u.decodedText) with
    | error message =>
      rw [hresolved] at hok
      cases hok
    | ok resolvedUri =>
      have htarget := h.scheme_eq hresolved (by rw [String.toList_ofList]; exact hparse)
      obtain ⟨retryRequest, s', hexec, hurl⟩ := exec_buildRetryRequest_some (s := s) htext hbefore
        hresolved (hscheme.symm.trans htarget.symm)
      refine ⟨retryRequest, s', hexec, target, ?_, hsame⟩
      rw [hurl, String.toList_ofList]
      exact hparse

/-- The next request is at what the decoded location says. -/
theorem exec_makeRetryRequest_sameTarget (h : poco.FollowsSyntax ports)
    (hbefore : poco.uri response.request.url = .ok beforeUri) {u : UriText.AbsoluteUri ports}
    (hlocation : location response = String.ofList u.text)
    (hscheme : String.ofList u.parts.scheme = beforeUri.scheme) :
    (∃ retryRequest s', exec (makeRetryRequest poco response) s = (.ok (some retryRequest), s') ∧
      ∃ target, UriText.parse ports retryRequest.url.toList = some target ∧
        UriText.SameTarget target u.parts) ↔
    ∃ target, UriText.parse ports u.decodedText = some target ∧
      UriText.SameTarget target u.parts := by
  rw [exec_makeRetryRequest_uri h hbefore hlocation]
  constructor
  · intro hkept
    obtain ⟨target, hparse, -, hsame⟩ := hkept
    exact ⟨target, hparse, hsame⟩
  · intro hkept
    obtain ⟨target, hparse, hsame⟩ := hkept
    refine ⟨target, hparse, ?_, hsame⟩
    rw [u.scheme_of_parse_decodedText hparse]
    exact hscheme

/-- **The target of a redirect.** It is kept when host and query have no escape, none of the others
stands for a delimiter or a percent sign and what `Location` stands for can be parsed, and only
then, except that escaped delimiters in the user information may happen to spell the target
again. -/
theorem keepsTarget_isRightTarget (poco : Poco) (ports : UriText.Ports)
    (beforeUri : Uri) (response : Response) (s : HeaderStore) (h : poco.FollowsSyntax ports)
    (hbefore : poco.uri response.request.url = .ok beforeUri) :
    (KeepsTarget ports beforeUri (location response) →
      IsRightTarget poco ports beforeUri response s) ∧
    ((∀ u : UriText.AbsoluteUri ports, location response = String.ofList u.text →
        u.UserInfoSurvives) →
      IsRightTarget poco ports beforeUri response s →
        KeepsTarget ports beforeUri (location response)) := by
  constructor
  · intro hkeeps
    refine ⟨fun u hu hscheme => ?_, (forall_parses_iff h hbefore).mp hkeeps.parses⟩
    have hsurvives := hkeeps.survives u hu hscheme
    rw [exec_makeRetryRequest_sameTarget h hbefore hu hscheme]
    exact u.exists_sameTarget hsurvives
  · intro huser hright
    refine ⟨fun u hu hscheme => ?_, (forall_parses_iff h hbefore).mpr hright.2⟩
    rw [← u.sameTarget_decoded_iff (huser u hu), ← exec_makeRetryRequest_sameTarget h hbefore hu
      hscheme]
    exact hright.1 u hu hscheme

/-! ### Two redirects -/

/-- The ports of `http` and `https`. -/
def plainPorts : UriText.Ports where
  wellKnown scheme := if scheme = "https".toList then 443 else 80
  number digits := (Poco.parseDigits digits).bind fun n =>
    if 0 < n ∧ n < 65536 then some (UInt16.ofNat n) else none

/-- A library whose `URI` is that of `UriText`. -/
def plainPoco : Poco :=
  { Poco.plain with
    uri := fun text =>
      match UriText.parse plainPorts text.toList with
      | some parts => .ok {
          scheme := String.ofList parts.scheme
          host := String.ofList parts.host
          port := parts.port
          query := String.ofList parts.query }
      | none => .error "bad syntax"
    decode := fun text =>
      match UriText.decode text.toList with
      | some decoded => .ok (String.ofList decoded)
      | none => .error "bad syntax" }

/-- This library follows the syntax. -/
theorem followsSyntax_plainPoco : plainPoco.FollowsSyntax plainPorts where
  decode_eq text := by
    unfold plainPoco
    dsimp only
    cases UriText.decode text.toList with
    | none => rfl
    | some decoded => rfl
  uri_eq text := by
    unfold plainPoco
    dsimp only
    cases UriText.parse plainPorts text.toList with
    | none => rfl
    | some parts => rfl

/-- A redirect of a request for `http://example.com/`. -/
def redirectTo (location : String) : Response where
  request := {
    method := .get
    url := "http://example.com/"
    tag := none
    headers := 0
    cacheControl := {}
    body := none }
  statusCode := 302
  headers := {
    items := [(HeaderNames.Location, location)]
    grouped := by simp [ListMap.Grouped, ListMap.keys]
    named := by simp [HeaderNames.Location] }

/-- The location is the text that was put. -/
theorem location_redirectTo (text : String) : location (redirectTo text) = text := by
  unfold location Response.getHeaderValue Headers.getValue redirectTo
  have hfind : ListMap.find? lower HeaderNames.Location [(HeaderNames.Location, text)] =
      some (HeaderNames.Location, text) := by
    simp [ListMap.find?]
  rw [hfind]

/-- The redirect answers a request at this URL. -/
theorem url_redirectTo (text : String) : (redirectTo text).request.url = "http://example.com/" :=
  rfl

/-- The parts of the first URL. -/
def exampleUri : Uri := ⟨"http", "example.com", 80, ""⟩

/-- The first URL is parsed into these parts. -/
theorem uri_exampleUri : plainPoco.uri "http://example.com/" = .ok exampleUri := by decide +kernel

/-- A location without percent signs. -/
theorem isRightTarget_nextPage : IsRightTarget plainPoco plainPorts exampleUri
    (redirectTo "http://example.com/next?page=2") ⟨[Headers.empty]⟩ := by
  have hbefore : plainPoco.uri (redirectTo "http://example.com/next?page=2").request.url =
      .ok exampleUri := by
    rw [url_redirectTo]
    exact uri_exampleUri
  have hnot : '%' ∉ "http://example.com/next?page=2".toList := by decide +kernel
  have hparses : (UriText.parse plainPorts "http://example.com/next?page=2".toList).isSome := by
    decide +kernel
  refine (keepsTarget_isRightTarget plainPoco plainPorts exampleUri
    (redirectTo "http://example.com/next?page=2") ⟨[Headers.empty]⟩ followsSyntax_plainPoco
    hbefore).1 ⟨fun u hu hscheme => ?_, fun text hdecode hne => ?_⟩
  · rw [location_redirectTo] at hu
    rw [hu, String.toList_ofList] at hnot
    exact u.survives_of_not_mem hnot
  · rw [location_redirectTo, UriText.decode_of_not_mem hnot] at hdecode
    cases hdecode
    exact hparses

/-- `/a%3Fb`: the path has an escaped question mark. -/
def escapedQuestion : UriText.AbsoluteUri plainPorts where
  scheme := "http".toList
  userInfo := none
  host := "example.com".toList
  port := none
  path := "/a%3Fb".toList
  query := none
  fragment := none
  scheme_head := ⟨'h', by decide +kernel, by decide⟩
  scheme_chars := List.all_iff_forall_prop.mp (by decide +kernel)
  userInfo_chars := nofun
  isHost := .inl (by decide +kernel)
  host_chars := List.all_iff_forall_prop.mp (by decide +kernel)
  port_chars := nofun
  port_valid := by decide +kernel
  path_head := by
    have hhead : "/a%3Fb".toList.head? = some '/' := by decide +kernel
    rw [hhead]
    rintro c ⟨⟩
    rfl
  path_chars := List.all_eq_true.mp (by decide +kernel)
  query_chars := nofun
  userInfo_escapes := by decide +kernel
  host_escapes := by decide +kernel
  path_escapes := by decide +kernel
  query_escapes := by decide +kernel
  fragment_escapes := by decide +kernel

/-- An escaped question mark begins a query, and an escaped percent sign makes the parser throw. -/
theorem not_isRightTarget_escaped :
    ¬IsRightTarget plainPoco plainPorts exampleUri (redirectTo "http://example.com/a%3Fb")
      ⟨[Headers.empty]⟩ ∧
    ¬IsRightTarget plainPoco plainPorts exampleUri (redirectTo "http://example.com/100%25")
      ⟨[Headers.empty]⟩ := by
  have hbefore (text : String) : plainPoco.uri (redirectTo text).request.url = .ok exampleUri := by
    rw [url_redirectTo]
    exact uri_exampleUri
  constructor
  -- the question mark is decoded too early and starts a query
  · intro hright
    have hu : location (redirectTo "http://example.com/a%3Fb") =
        String.ofList escapedQuestion.text := by
      rw [location_redirectTo]
      decide +kernel
    have hparse : UriText.parse plainPorts escapedQuestion.decodedText =
        some ⟨"http".toList, "example.com".toList, 80, "/a".toList, "b".toList⟩ := by
      decide +kernel
    have hpath : escapedQuestion.parts.path = "/a?b".toList := by decide +kernel
    have hscheme : String.ofList escapedQuestion.parts.scheme = exampleUri.scheme := by
      decide +kernel
    obtain ⟨target, htarget, hsame⟩ := (exec_makeRetryRequest_sameTarget followsSyntax_plainPoco
      (hbefore _) hu hscheme).mp (hright.1 escapedQuestion hu hscheme)
    rw [hparse] at htarget
    cases htarget
    have heq := hsame.path_eq
    rw [hpath] at heq
    exact absurd heq (by decide +kernel)
  -- the percent sign is decoded, and the text does not parse any more
  · intro hright
    have hdecode : UriText.decode "http://example.com/100%25".toList =
        some "http://example.com/100%".toList := by decide +kernel
    have hne : "http://example.com/100%".toList ≠ [] := by decide +kernel
    have hnone : (UriText.parse plainPorts "http://example.com/100%".toList).isSome = false := by
      decide +kernel
    rw [← location_redirectTo "http://example.com/100%25"] at hdecode
    have hsome := (forall_parses_iff followsSyntax_plainPoco (hbefore _)).mpr hright.2 _
      hdecode hne
    rw [hnone] at hsome
    cases hsome

end HttpEngine

end EasyHttp
