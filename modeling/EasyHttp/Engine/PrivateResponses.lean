import EasyHttp.Engine.AuthorizedCalls
import EasyHttp.Engine.HttpEngineTheorems
import EasyHttp.Engine.Revalidation

/-!
# Responses to authorized requests are not shared

`isAvailableToCache` keeps a request with `Authorization` from the lookup, and `isCacheable` its
response from being stored. The first is asked of the request of a hop, the second of the request
that was sent, when the response has come; in between the header lists are copied and written to.

* `SameAuthorization`: engines and redirects leave lists with `Authorization` with it, and give it
  to no other;
* `RowFrom`: the rows that are made of the responses of given writes;
* `StaysPrivate`: no write is of a response to a request that carried it, all rows and files come
  from the writes, and a hop whose request carries it has no stored response in hand;
* `stays_private`: so it is along all runs from an empty cache.
-/

namespace EasyHttp.AuthorizedCalls

open Exec HttpConstants HttpCacheStrategy HttpCacheInternal HttpEngine SharedCache WrittenData

/-! ## Header lists -/

/-- The lists that there were carry `Authorization` as before. -/
def SameAuthorization (s t : HeaderStore) : Prop :=
  s.next ≤ t.next ∧ ∀ p < s.next,
    (t.deref p).has HeaderNames.Authorization = (s.deref p).has HeaderNames.Authorization

variable {poco : Poco} {json : PocoJson} {makeCacheKey : HttpMethod → String → String}
  {request networkRequest : Request} {headers headers' : HeaderStore}

theorem SameAuthorization.refl (s : HeaderStore) : SameAuthorization s s :=
  ⟨Nat.le_refl _, fun _ _ => rfl⟩

theorem SameAuthorization.trans {s t u : HeaderStore} (hst : SameAuthorization s t)
    (htu : SameAuthorization t u) : SameAuthorization s u := by
  refine ⟨Nat.le_trans hst.1 htu.1, fun p hp => ?_⟩
  rw [htu.2 p (Nat.lt_of_lt_of_le hp hst.1), hst.2 p hp]

/-- New header lists do not change the old ones. -/
theorem sameAuthorization_of_extends {s t : HeaderStore} (h : s.Extends t) :
    SameAuthorization s t :=
  ⟨h.1, fun p hp => by rw [h.2 p hp]⟩

/-- A request carries credentials before and after, or never. -/
theorem SameAuthorization.carries (h : SameAuthorization headers headers')
    (hlive : request.headers < headers.next) :
    carriesAuthorization request headers' = carriesAuthorization request headers :=
  h.2 request.headers hlive

/-- A conditional header is none of the `Authorization` headers. -/
theorem has_setConditional (h : Headers) (header : ConditionalHeader) :
    (h.setConditional header).has HeaderNames.Authorization =
      h.has HeaderNames.Authorization := by
  have hname : lower header.name ≠ lower HeaderNames.Authorization := by
    rcases header.conditional with hname | hname <;>
    · rw [hname]
      decide
  rw [Bool.eq_iff_iff, Headers.has_iff, Headers.has_iff]
  show (∃ e ∈ h.setItems header.name header.value, _) ↔ _
  rw [Headers.setItems_eq]
  constructor
  · rintro ⟨e, he, hlower⟩
    rcases List.mem_append.mp he with he | he
    · exact ⟨e, (List.mem_filter.mp he).1, hlower⟩
    · cases List.mem_singleton.mp he
      exact absurd hlower hname
  · rintro ⟨e, he, hlower⟩
    refine ⟨e, List.mem_append_left _ (List.mem_filter.mpr ⟨he, ?_⟩), hlower⟩
    rw [decide_eq_true_eq, hlower]
    exact Ne.symm hname

/-- A conditional header is no credentials. -/
theorem has_headersAfter (d : CacheDecision) (h : Headers) :
    (d.headersAfter h).has HeaderNames.Authorization = h.has HeaderNames.Authorization := by
  unfold CacheDecision.headersAfter
  split
  · exact has_setConditional h _
  · rfl

/-- The decision adds no credentials. -/
theorem sameAuthorization_storeAfter (d : CacheDecision) (hlive : request.headers < headers.next) :
    SameAuthorization headers (d.storeAfter request headers) := by
  refine ⟨d.next_le_storeAfter, fun p hp => ?_⟩
  by_cases hown : p = request.headers
  · rw [hown, d.deref_storeAfter_own hlive, has_headersAfter]
  · rw [d.deref_storeAfter_of_ne hp hown]

/-! ## The lookup of a hop -/

section
variable {s s' : System} {asked : SharedCache.Action} {found : Option Found}

/-- The lookup adds no credentials. -/
theorem sameAuthorization_lookup (hlive : request.headers < headers.next) :
    SameAuthorization headers
      (headersAfterLookup poco json makeCacheKey s asked request headers) := by
  unfold headersAfterLookup
  dsimp only
  split
  · exact SameAuthorization.refl headers
  · rw [exec_checkCache]
    exact sameAuthorization_storeAfter _ hlive

/-- The request that a lookup leaves to be sent. -/
theorem afterLookup_sending {env : Surroundings} {nowAtEpoch : Int64} {serial : ℕ}
    (hnow : env.nowAtEpoch = nowAtEpoch.toUInt64)
    (havailable : isAvailableToCache request headers = true)
    (h : afterLookup poco request env.metadata nowAtEpoch headers serial =
      .sending networkRequest found) :
    (cacheDecision poco true env request headers).networkRequest request headers =
      some networkRequest := by
  unfold afterLookup at h
  rw [← hnow, exec_createCacheStrategy poco env havailable] at h
  cases hd : cacheDecision poco true env request headers with
  | send =>
    rw [hd] at h
    cases h
    rfl
  | revalidate header cacheResponse =>
    rw [hd] at h
    cases h
    rfl
  | sendCopy =>
    rw [hd] at h
    cases h
    rfl
  | gatewayTimeout =>
    rw [hd] at h
    cases h
  | answer cacheResponse =>
    rw [hd] at h
    cases h
  | fail e =>
    rw [hd] at h
    cases h

/-- What is sent after a lookup carries `Authorization` if the request did. -/
theorem lookup_sending (hlive : request.headers < headers.next)
    (h : checkCache poco json makeCacheKey s.shared asked request headers =
      .sending networkRequest found) :
    networkRequest.headers <
        (headersAfterLookup poco json makeCacheKey s asked request headers).next ∧
      carriesAuthorization networkRequest
          (headersAfterLookup poco json makeCacheKey s asked request headers) =
        carriesAuthorization request headers := by
  have hsame : SameAuthorization headers
      (headersAfterLookup poco json makeCacheKey s asked request headers) :=
    sameAuthorization_lookup hlive
  -- the strategy leaves the credentials of the request that it sends
  have hlookup : ∀ {env : Surroundings} {serial : ℕ},
      env.nowAtEpoch = asked.nowAtEpoch.toUInt64 → isAvailableToCache request headers = true →
      afterLookup poco request env.metadata asked.nowAtEpoch headers serial =
        .sending networkRequest found →
      networkRequest.headers < (exec (checkCacheBeforeSendRequest poco true env request)
          headers).2.next ∧
        carriesAuthorization networkRequest
          (exec (checkCacheBeforeSendRequest poco true env request) headers).2 =
          carriesAuthorization request headers := by
    intro env serial hnow havailable hafter
    obtain ⟨-, hnext, hderef⟩ := CacheDecision.networkRequest_headers _ hlive
      (afterLookup_sending hnow havailable hafter)
    rw [exec_checkCache]
    refine ⟨hnext, ?_⟩
    unfold carriesAuthorization Request.hasHeader Request.getHeaders
    rw [hderef, has_headersAfter]
  unfold checkCache at h
  dsimp only at h
  split at h
  · cases h
    exact ⟨Nat.lt_of_lt_of_le hlive hsame.1, hsame.carries hlive⟩
  rename_i havailable
  rw [Bool.not_eq_true, Bool.not_eq_false'] at havailable
  unfold headersAfterLookup
  dsimp only
  split at h
  · rename_i hkey
    rw [if_pos hkey]
    exact hlookup rfl havailable h
  · rename_i hkey
    rw [if_neg hkey]
    -- what the database answers plays no part in the headers
    cases hanswer : answer (HttpFileCache.getMetadata json (keyOf makeCacheKey request)) s.shared
      asked with
    | error e =>
      rw [hanswer] at h
      cases h
    | ok metadata =>
      rw [hanswer] at h
      exact hlookup rfl havailable h

end

/-! ## Where rows and bodies come from -/

section
variable (poco : Poco) (json : PocoJson) (makeCacheKey : HttpMethod → String → String)
  (writes : List Write)

/-- A row that was put with a response that was written, also when it has been read since, or one
that `updateCache` made out of such rows and the headers of a response that was written. -/
inductive RowFrom : Row → Prop
  | put {write : Write} (hwrite : write ∈ writes) (writtenDataSize : UInt64) (nowAtEpoch : Int64) :
    RowFrom ((putCacheMetadata makeCacheKey write.networkResponse writtenDataSize).toRow json
      nowAtEpoch)
  | accessed {row row' : Row} (h : RowFrom row) (hlike : row.Like row') : RowFrom row'
  | updated {write : Write} {found reread : Row} {foundKey key : String} {request : Request}
    {cacheResponse : Response} {metadata : HttpCacheMetadata} {combinedHeaders : Headers}
    (hwrite : write ∈ writes) (hfound : RowFrom found) (hreread : RowFrom reread)
    (hread : readResponse poco json foundKey request found = .ok cacheResponse)
    (hmetadata : reread.getMetadata json key = .ok metadata)
    (hcombined : combineCacheAndNetworkHeader cacheResponse write.networkResponse =
      .ok combinedHeaders) (nowAtEpoch : Int64) :
    RowFrom ((updatedMetadata metadata write.networkResponse combinedHeaders).toRow json nowAtEpoch)

/-- The content of a file that was written. -/
def BodyFrom (content : String) : Prop := ∃ write ∈ writes, write.content = some content

/-- A stored response that was read from such a row. -/
def IsReadFrom (response : Response) : Prop :=
  ∃ key request row, RowFrom poco json makeCacheKey writes row ∧
    readResponse poco json key request row = .ok response

end

/-- No response to a request that carried `Authorization` is stored, and none is answered or asked
about from what is stored. -/
structure StaysPrivate (poco : Poco) (json : PocoJson)
    (makeCacheKey : HttpMethod → String → String) (s : System) : Prop where
  writes : ∀ write ∈ s.writes, write.authorized = false
  rows : AllRows (fun _ => RowFrom poco json makeCacheKey s.writes) s.shared.store.cache.disk
  files : AllFiles (BodyFrom s.writes) s.shared.store.cache.disk
  found : ∀ i, s.begunWith i = true ∨ s.sentWith i = true →
    foundOf (s.shared.tasks i).stage = none

section
variable {writes writes' : List Write} {row : Row} {response : Response}

theorem RowFrom.mono (h : RowFrom poco json makeCacheKey writes row) (hsub : writes ⊆ writes') :
    RowFrom poco json makeCacheKey writes' row := by
  induction h with
  | put hwrite writtenDataSize nowAtEpoch => exact .put (hsub hwrite) writtenDataSize nowAtEpoch
  | accessed _ hlike ih => exact .accessed ih hlike
  | updated hwrite _ _ hread hmetadata hcombined nowAtEpoch ih ih' =>
    exact .updated (hsub hwrite) ih ih' hread hmetadata hcombined nowAtEpoch

theorem IsReadFrom.mono (h : IsReadFrom poco json makeCacheKey writes response)
    (hsub : writes ⊆ writes') : IsReadFrom poco json makeCacheKey writes' response := by
  obtain ⟨key, request, row, hrow, hread⟩ := h
  exact ⟨key, request, row, hrow.mono hsub, hread⟩

theorem allWritten_mono {disk : Disk} (hsub : writes ⊆ writes')
    (h : AllWritten (fun _ => RowFrom poco json makeCacheKey writes) (BodyFrom writes) disk) :
    AllWritten (fun _ => RowFrom poco json makeCacheKey writes') (BodyFrom writes') disk := by
  refine ⟨fun k row hrow => (h.1 k row hrow).mono hsub, fun path content hfile => ?_⟩
  obtain ⟨write, hwrite, hcontent⟩ := h.2 path content hfile
  exact ⟨write, hsub hwrite, hcontent⟩

end

/-! ## What a hop has in hand -/

/-- A stored response is in hand only if neither the request of the hop nor the one that was sent
carried `Authorization`, and a response is to be stored only if the latter did not. -/
def StageOk (poco : Poco) (json : PocoJson) (makeCacheKey : HttpMethod → String → String)
    (headers : HeaderStore) (begun sent : Bool) (writes : List Write) : Stage → Prop
  | .sending networkRequest found =>
    networkRequest.headers < headers.next ∧ sent = false ∧
      ∀ f ∈ found, IsReadFrom poco json makeCacheKey writes f.response ∧ begun = false ∧
        carriesAuthorization networkRequest headers = false
  | .receiving networkRequest found _ =>
    networkRequest.headers < headers.next ∧
      sent = carriesAuthorization networkRequest headers ∧
        ∀ f ∈ found, IsReadFrom poco json makeCacheKey writes f.response ∧ begun = false ∧
          sent = false
  | .updating found networkResponse combinedHeaders =>
    (begun = false ∧ sent = false) ∧ IsReadFrom poco json makeCacheKey writes found.response ∧
      combineCacheAndNetworkHeader found.response networkResponse = .ok combinedHeaders
  | .rewriting found networkResponse httpCacheMetadata _ =>
    (begun = false ∧ sent = false) ∧ IsReadFrom poco json makeCacheKey writes found.response ∧
      ∃ reread key metadata combinedHeaders, RowFrom poco json makeCacheKey writes reread ∧
        reread.getMetadata json key = .ok metadata ∧
        combineCacheAndNetworkHeader found.response networkResponse = .ok combinedHeaders ∧
          httpCacheMetadata = updatedMetadata metadata networkResponse combinedHeaders
  | .opening _ _ | .served _ _ _ => begun = false ∧ sent = false
  | .storing _ _ => sent = false
  | _ => True

/-- The invariant. -/
structure Inv (poco : Poco) (json : PocoJson) (makeCacheKey : HttpMethod → String → String)
    (s : System) : Prop where
  writes : ∀ write ∈ s.writes, write.authorized = false
  disk : AllWritten (fun _ => RowFrom poco json makeCacheKey s.writes) (BodyFrom s.writes)
    s.shared.store.cache.disk
  stages : ∀ i, StageOk poco json makeCacheKey s.headers (s.begunWith i) (s.sentWith i) s.writes
    (s.shared.tasks i).stage

theorem Inv.staysPrivate {s : System} (h : Inv poco json makeCacheKey s) :
    StaysPrivate poco json makeCacheKey s := by
  refine ⟨h.writes, h.disk.1, h.disk.2, fun i hcarried => ?_⟩
  -- a task that has found something was begun and sent without credentials
  have hnone : ∀ {begun sent}, (begun = false ∧ sent = false) →
      begun = true ∨ sent = true → False := by
    rintro begun sent ⟨rfl, rfl⟩ hboth
    exact hboth.elim Bool.false_ne_true Bool.false_ne_true
  have hstage := h.stages i
  cases hs : (s.shared.tasks i).stage with
  | sending networkRequest found =>
    rw [hs] at hstage
    cases found with
    | none => rfl
    | some f =>
      obtain ⟨-, hsent, hall⟩ := hstage
      exact (hnone ⟨(hall f rfl).2.1, hsent⟩ hcarried).elim
  | receiving networkRequest found sentAt =>
    rw [hs] at hstage
    cases found with
    | none => rfl
    | some f => exact (hnone (hstage.2.2 f rfl).2 hcarried).elim
  | updating found networkResponse combinedHeaders =>
    rw [hs] at hstage
    exact (hnone hstage.1 hcarried).elim
  | rewriting found networkResponse httpCacheMetadata serial =>
    rw [hs] at hstage
    exact (hnone hstage.1 hcarried).elim
  | opening found networkResponse =>
    rw [hs] at hstage
    exact (hnone hstage hcarried).elim
  | served response found stream =>
    rw [hs] at hstage
    exact (hnone hstage hcarried).elim
  | _ => rfl

theorem StageOk.mono {begun sent : Bool} {writes writes' : List Write} {stage : Stage}
    (h : StageOk poco json makeCacheKey headers begun sent writes stage)
    (hsame : SameAuthorization headers headers') (hsub : writes ⊆ writes') :
    StageOk poco json makeCacheKey headers' begun sent writes' stage := by
  cases stage with
  | sending networkRequest found =>
    obtain ⟨hlive, hsent, hall⟩ := h
    refine ⟨Nat.lt_of_lt_of_le hlive hsame.1, hsent, fun f hf => ?_⟩
    rw [hsame.carries hlive]
    exact ⟨(hall f hf).1.mono hsub, (hall f hf).2⟩
  | receiving networkRequest found sentAt =>
    obtain ⟨hlive, hsent, hall⟩ := h
    refine ⟨Nat.lt_of_lt_of_le hlive hsame.1, ?_, fun f hf => ?_⟩
    · rw [hsame.carries hlive]
      exact hsent
    · exact ⟨(hall f hf).1.mono hsub, (hall f hf).2⟩
  | updating found networkResponse combinedHeaders => exact ⟨h.1, h.2.1.mono hsub, h.2.2⟩
  | rewriting found networkResponse httpCacheMetadata serial =>
    obtain ⟨hnone, hread, reread, key, metadata, combinedHeaders, hreread, hrest⟩ := h
    exact ⟨hnone, hread.mono hsub, reread, key, metadata, combinedHeaders, hreread.mono hsub, hrest⟩
  | _ => exact h

/-! ## A hop begins -/

section
variable {s s' : System} {action : Action}

/-- A request that is available to the cache carries no credentials. -/
theorem carries_eq_false (h : isAvailableToCache request headers = true) :
    carriesAuthorization request headers = false := by
  unfold isAvailableToCache at h
  simp only [Bool.and_eq_true, Bool.not_eq_true'] at h
  exact h.1.1.1.2

/-- A task that begins has read what comes from a write. -/
theorem stage_begun {asked : SharedCache.Action} (hlive : request.headers < headers.next)
    (h : AllRows (fun _ => RowFrom poco json makeCacheKey s.writes) s.shared.store.cache.disk) :
    StageOk poco json makeCacheKey
      (headersAfterLookup poco json makeCacheKey s asked request headers)
      (carriesAuthorization request headers) false s.writes
      (checkCache poco json makeCacheKey s.shared asked request headers) := by
  rcases checkCache_cases poco json makeCacheKey s.shared asked request headers with
    hafter | ⟨f, hafter, havailable⟩ | ⟨networkRequest, found, hafter, hall⟩
  · rw [hafter]
    trivial
  · rw [hafter]
    exact ⟨carries_eq_false havailable, rfl⟩
  · obtain ⟨hnext, hsame⟩ := lookup_sending hlive hafter
    rw [hafter]
    refine ⟨hnext, rfl, fun f hf => ?_⟩
    obtain ⟨havailable, m, hanswer, hcreate⟩ := hall f hf
    obtain ⟨row, hrow, hmetadata⟩ := answer_allRows h hanswer
    have hread : readResponse poco json (keyOf makeCacheKey request) request row =
        .ok f.response := by
      unfold readResponse
      rw [hmetadata]
      exact hcreate
    rw [hsame]
    exact ⟨⟨_, request, row, hrow, hread⟩, carries_eq_false havailable,
      carries_eq_false havailable⟩

/-- A hop that begins keeps the invariant. -/
theorem beginHop_inv (h : Inv poco json makeCacheKey s)
    (hsame : SameAuthorization s.headers headers) (hlive : request.headers < headers.next)
    (hstep : beginHop poco json makeCacheKey s action request headers = some s') :
    Inv poco json makeCacheKey s' := by
  unfold beginHop at hstep
  obtain ⟨shared, hshared, hstep⟩ := Option.bind_eq_some_iff.mp hstep
  cases hstep
  refine ⟨h.writes, ?_, fun i => ?_⟩
  -- a lookup writes neither rows nor bodies
  · refine step_allWritten (fun _ _ _ hlike hrow => hrow.accessed hlike) h.disk ?_ ?_ hshared
    · intro _ _ _ _ hevent
      cases hevent
    · intro _ _ _ _ _ hevent
      cases hevent
  · obtain ⟨task, store, hresume, -, rfl⟩ := step_some hshared
    -- this task begins now, and the others are where they were
    by_cases hi : i = action.task
    · subst hi
      show StageOk poco json makeCacheKey _ (Function.update s.begunWith action.task _ action.task)
        (Function.update s.sentWith action.task false action.task) s.writes
        (Function.update s.shared.tasks action.task task action.task).stage
      rw [Function.update_self, Function.update_self, Function.update_self]
      cases resumes hresume with
      | begun hevent =>
        cases hevent
        exact stage_begun hlive h.disk.1
      | ended => trivial
      | sent hstage hevent => cases hevent
      | received hevent hstage hanswer => cases hevent
      | proceeded hevent hproceeds => cases hevent
      | same hevent => cases hevent
    · show StageOk poco json makeCacheKey _ (Function.update s.begunWith action.task _ i)
        (Function.update s.sentWith action.task false i) s.writes
        (Function.update s.shared.tasks action.task task i).stage
      rw [Function.update_of_ne hi, Function.update_of_ne hi, Function.update_of_ne hi]
      exact (h.stages i).mono (hsame.trans (sameAuthorization_lookup hlive)) (List.Subset.refl _)

/-! ## A hop goes on -/

theorem writesAfter_subset (s : System) (action : Action) : s.writes ⊆ writesAfter s action := by
  unfold writesAfter
  split
  · exact List.subset_cons_self _ _
  · exact List.subset_cons_self _ _
  · exact List.Subset.refl _

/-- What is sent is recorded for no other hop. -/
theorem sentAfter_of_ne {i : ℕ} (hi : i ≠ action.task) : sentAfter s action i = s.sentWith i := by
  have hupdate : sentAfter s action = s.sentWith ∨
      ∃ b, sentAfter s action = Function.update s.sentWith action.task b := by
    unfold sentAfter
    split
    · exact .inr ⟨_, rfl⟩
    · exact .inl rfl
  rcases hupdate with hsame | ⟨b, hb⟩
  · rw [hsame]
  · rw [hb, Function.update_of_ne hi]

/-- Only a request that is sent counts as sent. -/
theorem sentAfter_of_event (hevent : action.event ≠ .send) : sentAfter s action = s.sentWith := by
  unfold sentAfter
  split
  · exact absurd (by assumption) hevent
  · rfl

/-- The event that a hop goes on with. -/
theorem shared_eq_some {event : Event} {asked : SharedCache.Event}
    (h : event.shared headers = some asked) :
    (event = .send ∧ asked = .send) ∨
    (∃ answer, event = .receive answer ∧ asked = .receive answer headers) ∨
    (event = .proceed ∧ asked = .proceed) ∨
    (∃ content writtenDataSize path, event = .close content writtenDataSize path ∧
      asked = .close content writtenDataSize path) ∨
    (event = .release ∧ asked = .release) ∨ (event = .evictAll ∧ asked = .evictAll) := by
  cases event with
  | make _ => cases h
  | begin _ => cases h
  | redirect _ => cases h
  | _ =>
    cases h
    simp

/-- Each write is that of a task that sent no credentials. -/
theorem writes_continue (h : Inv poco json makeCacheKey s) :
    ∀ write ∈ writesAfter s action, write.authorized = false := by
  have hstage := h.stages action.task
  unfold writesAfter
  split
  · rename_i heq
    rw [heq] at hstage
    intro write hwrite
    rcases List.mem_cons.mp hwrite with rfl | hwrite
    · exact hstage
    · exact h.writes write hwrite
  · rename_i heq
    rw [heq] at hstage
    intro write hwrite
    rcases List.mem_cons.mp hwrite with rfl | hwrite
    · exact hstage.1.2
    · exact h.writes write hwrite
  · exact h.writes

/-- What is on disk comes from a write after a task went on. -/
theorem disk_continue (h : Inv poco json makeCacheKey s) {asked : SharedCache.Event}
    {shared : SharedCache.System} (hasked : action.event.shared s.headers = some asked)
    (hstep : SharedCache.step poco json makeCacheKey s.shared (action.ask asked) = some shared) :
    AllWritten (fun _ => RowFrom poco json makeCacheKey (writesAfter s action))
      (BodyFrom (writesAfter s action)) shared.store.cache.disk := by
  have hhand := h.stages action.task
  refine step_allWritten (fun _ _ _ hlike hrow => hrow.accessed hlike)
    (allWritten_mono (writesAfter_subset s action) h.disk) ?_ ?_ hstep
  -- a row is rewritten when the server has confirmed the response, so without credentials
  · intro found networkResponse httpCacheMetadata serial hproceed hstage nowAtEpoch
    have hstage : (s.shared.tasks action.task).stage =
      .rewriting found networkResponse httpCacheMetadata serial := hstage
    have hevent : action.event = .proceed := by
      cases hproceed
      rcases shared_eq_some hasked with ⟨-, h⟩ | ⟨_, -, h⟩ | ⟨hevent, -⟩ | ⟨_, _, _, -, h⟩ |
        ⟨-, h⟩ | ⟨-, h⟩
      · cases h
      · cases h
      · exact hevent
      · cases h
      · cases h
      · cases h
    rw [hstage] at hhand
    obtain ⟨-, ⟨foundKey, request, row, hrow, hread⟩, reread, key, metadata, combinedHeaders,
      hreread, hmetadata, hcombined, rfl⟩ := hhand
    have hsub := writesAfter_subset s action
    have hwrite : (⟨networkResponse, none, s.sentWith action.task⟩ : Write) ∈
        writesAfter s action := by
      unfold writesAfter
      rw [hevent, hstage]
      exact List.mem_cons_self
    exact RowFrom.updated hwrite (hrow.mono hsub) (hreread.mono hsub) hread hmetadata hcombined
      nowAtEpoch
  -- a row is put when the body is closed, with the headers of a response that may be stored
  · intro content writtenDataSize path networkResponse receivedAt hclose hstage
    have hstage : (s.shared.tasks action.task).stage = .storing networkResponse receivedAt := hstage
    have hevent : action.event = .close content writtenDataSize path := by
      cases hclose
      rcases shared_eq_some hasked with ⟨-, h⟩ | ⟨_, -, h⟩ | ⟨-, h⟩ | ⟨_, _, _, hevent, h⟩ |
        ⟨-, h⟩ | ⟨-, h⟩
      · cases h
      · cases h
      · cases h
      · cases h
        exact hevent
      · cases h
      · cases h
    have hwrite : (⟨networkResponse, some content, s.sentWith action.task⟩ : Write) ∈
        writesAfter s action := by
      unfold writesAfter
      rw [hevent, hstage]
      exact List.mem_cons_self
    exact ⟨⟨_, hwrite, rfl⟩, fun nowAtEpoch => RowFrom.put hwrite writtenDataSize nowAtEpoch⟩

/-- After an answer, a response to a request with `Authorization` is not to be stored. -/
theorem stage_afterReceive {networkResponse : Response} {found : Option Found}
    {sentAt receivedAt : ℕ} {begun sent : Bool} {writes : List Write}
    (hsent : sent = carriesAuthorization networkResponse.request headers)
    (hfound : ∀ f ∈ found, IsReadFrom poco json makeCacheKey writes f.response ∧ begun = false ∧
      sent = false) :
    StageOk poco json makeCacheKey headers begun sent writes
      (afterReceive poco networkResponse found sentAt receivedAt headers) := by
  unfold afterReceive
  split
  · rename_i f hf
    obtain ⟨hread, hbegun, hnot⟩ := hfound f (Option.filter_eq_some_iff.mp hf).1
    split
    · trivial
    · exact ⟨⟨hbegun, hnot⟩, hread, by assumption⟩
  split
  · rename_i hcacheable
    show sent = false
    rw [hsent]
    unfold isCacheable at hcacheable
    simp only [Bool.and_eq_true, Bool.not_eq_true'] at hcacheable
    exact hcacheable.1.1.2
  split
  · trivial
  · trivial

/-- A task that goes on is right after its step. -/
theorem stage_proceeds {asked : SharedCache.Action} {begun sent : Bool} {stage : Stage}
    {task : Task}
    (h : AllRows (fun _ => RowFrom poco json makeCacheKey s.writes) s.shared.store.cache.disk)
    (hstage : StageOk poco json makeCacheKey headers begun sent s.writes task.stage)
    (hproceeds : Proceeds json makeCacheKey s.shared asked task stage) :
    StageOk poco json makeCacheKey headers begun sent s.writes stage := by
  cases hproceeds with
  | finished => trivial
  | skipped hbefore =>
    rw [hbefore] at hstage
    exact hstage.1
  | reread hbefore hanswer =>
    rw [hbefore] at hstage
    obtain ⟨hnone, hread, hcombined⟩ := hstage
    obtain ⟨row, hrow, hmetadata⟩ := answer_allRows h hanswer
    exact ⟨hnone, hread, row, _, _, _, hrow, hmetadata, hcombined, rfl⟩
  | rewritten hbefore =>
    rw [hbefore] at hstage
    exact hstage.1
  | opened hbefore hanswer hrequest hsame =>
    rw [hbefore] at hstage
    exact hstage

/-- The other tasks are right after a task went on. -/
theorem stage_continue (h : Inv poco json makeCacheKey s) {asked : SharedCache.Event} {task : Task}
    (hasked : action.event.shared s.headers = some asked)
    (hresumes : Resumes poco json makeCacheKey s.shared (action.ask asked) task) :
    StageOk poco json makeCacheKey s.headers (s.begunWith action.task)
      (sentAfter s action action.task) s.writes task.stage := by
  have hhand := h.stages action.task
  -- what was sent with credentials before was so
  have hnot : asked ≠ .send → sentAfter s action action.task = s.sentWith action.task := by
    intro hne
    rw [sentAfter_of_event]
    intro hsend
    rw [hsend] at hasked
    cases hasked
    exact hne rfl
  cases hresumes with
  | begun hevent =>
    cases hevent
    rcases shared_eq_some hasked with ⟨-, h⟩ | ⟨_, -, h⟩ | ⟨-, h⟩ | ⟨_, _, _, -, h⟩ |
      ⟨-, h⟩ | ⟨-, h⟩ <;> cases h
  | @sent networkRequest found hstage hevent =>
    cases hevent
    have hstage : (s.shared.tasks action.task).stage = .sending networkRequest found := hstage
    rw [hstage] at hhand
    obtain ⟨hlive, -, hall⟩ := hhand
    -- the request goes out now, and whether it carries credentials is recorded
    have hsend : action.event = .send := by
      rcases shared_eq_some hasked with ⟨hevent, -⟩ | ⟨_, -, h⟩ | ⟨-, h⟩ | ⟨_, _, _, -, h⟩ |
        ⟨-, h⟩ | ⟨-, h⟩
      · exact hevent
      all_goals cases h
    have hsent : sentAfter s action action.task =
        carriesAuthorization networkRequest s.headers := by
      unfold sentAfter
      rw [hsend, hstage]
      exact Function.update_self _ _ _
    rw [hsent]
    exact ⟨hlive, rfl, hall⟩
  | @received answer headers networkRequest networkResponse found sentAt hevent hstage hanswer =>
    cases hevent
    have hstage : (s.shared.tasks action.task).stage = .receiving networkRequest found sentAt :=
      hstage
    rw [hstage] at hhand
    obtain ⟨-, hsent, hall⟩ := hhand
    -- the header lists are those of the system
    have hheaders : headers = s.headers := by
      rcases shared_eq_some hasked with ⟨-, h⟩ | ⟨_, -, h⟩ | ⟨-, h⟩ | ⟨_, _, _, -, h⟩ |
        ⟨-, h⟩ | ⟨-, h⟩ <;> cases h
      rfl
    subst hheaders
    rw [hnot nofun]
    refine stage_afterReceive ?_ hall
    rw [sendRequest_request hanswer]
    exact hsent
  | proceeded hevent hproceeds =>
    cases hevent
    rw [hnot nofun]
    exact stage_proceeds h.disk.1 hhand hproceeds
  | ended => trivial
  | same hevent =>
    cases hevent
    rw [hnot nofun]
    exact hhand

/-- A task that goes on keeps the invariant. -/
theorem continueHop_inv (h : Inv poco json makeCacheKey s)
    (hstep : continueHop poco json makeCacheKey s action = some s') :
    Inv poco json makeCacheKey s' := by
  unfold continueHop at hstep
  obtain ⟨asked, hasked, hstep⟩ := Option.bind_eq_some_iff.mp hstep
  obtain ⟨shared, hshared, hstep⟩ := Option.bind_eq_some_iff.mp hstep
  cases hstep
  refine ⟨writes_continue h, disk_continue h hasked hshared, fun i => ?_⟩
  obtain ⟨task, store, hresume, -, rfl⟩ := step_some hshared
  have hsub := writesAfter_subset s action
  by_cases hi : i = action.task
  · subst hi
    show StageOk poco json makeCacheKey s.headers _ (sentAfter s action action.task) _
      (Function.update s.shared.tasks action.task task action.task).stage
    rw [Function.update_self]
    exact (stage_continue h hasked (resumes hresume)).mono (SameAuthorization.refl _) hsub
  · show StageOk poco json makeCacheKey s.headers _ (sentAfter s action i) _
      (Function.update s.shared.tasks action.task task i).stage
    rw [Function.update_of_ne hi, sentAfter_of_ne hi]
    exact (h.stages i).mono (SameAuthorization.refl _) hsub

/-! ## Runs -/

/-- Each step keeps the invariant. -/
theorem step_inv (s : System) (action : Action) (s' : System) (h : Inv poco json makeCacheKey s)
    (_ : True) (hstep : step poco json makeCacheKey s action = some s') :
    Inv poco json makeCacheKey s' := by
  unfold step at hstep
  split at hstep
  · cases hstep
    exact ⟨h.writes, h.disk, fun i => (h.stages i).mono
      (sameAuthorization_of_extends (Store.extends_alloc _ _)) (List.Subset.refl _)⟩
  · split at hstep
    · rename_i hlive
      exact beginHop_inv h (SameAuthorization.refl _) hlive hstep
    · cases hstep
  · rename_i response _
    split at hstep
    · rename_i retryRequest headers hretry
      have hextends := keeps_getRetryRequest poco response s.headers
      rw [hretry] at hextends
      obtain ⟨resolvedUrl, hbuild⟩ := getRetryRequest_some hretry
      obtain ⟨_, _, -, -, -, -, -, hlive, -⟩ := buildRetryRequest_some hbuild
      exact beginHop_inv h (sameAuthorization_of_extends hextends) hlive hstep
    · cases hstep
  · exact continueHop_inv h hstep

section
variable {cacheRootDir : String} {maxSize : UInt64} {disk : Disk} {actions : List Action}

theorem allWritten_of_empty {P : String → Row → Prop} {B : String → Prop}
    (hrows : disk.rows = SortedMap.empty) (hfiles : disk.files = SortedMap.empty) :
    AllWritten P B disk := by
  refine ⟨fun k row hrow => ?_, fun path content hfile => ?_⟩
  · rw [Disk.row, hrows, SortedMap.find?_empty] at hrow
    cases hrow
  · rw [Disk.file, hfiles, SortedMap.find?_empty] at hfile
    cases hfile

theorem inv_init (hrows : disk.rows = SortedMap.empty) (hfiles : disk.files = SortedMap.empty) :
    Inv poco json makeCacheKey (System.init cacheRootDir maxSize disk) := by
  have hkept := keeps_initializeCache (P := fun _ => RowFrom poco json makeCacheKey [])
    (B := BodyFrom []) (HttpFileCache.construct cacheRootDir maxSize disk)
  refine ⟨?_, Still.allWritten hkept (allWritten_of_empty hrows hfiles), ?_⟩
  · intro write hwrite
    cases hwrite
  · intro i
    exact trivial

/-- In every run from an empty cache, what is stored comes from responses to requests without
`Authorization`, and no hop whose request carries it has a stored response in hand. -/
theorem stays_private (hrows : disk.rows = SortedMap.empty) (hfiles : disk.files = SortedMap.empty)
    (hrun : Runs.run (step poco json makeCacheKey) (System.init cacheRootDir maxSize disk) actions =
      some s) : StaysPrivate poco json makeCacheKey s :=
  (Runs.run_invariant step_inv (inv_init hrows hfiles) hrun
    (Runs.everyStep_true _ _)).staysPrivate

end

end

/-! ## A redirect to another host -/

/-- The actions of one hop. -/
def hopOf (task : ℕ) (events : List Event) : List Action :=
  events.map fun event => { task := task, event := event }

/-- The headers of a request with credentials. -/
def loginHeaders : Headers where
  items := [("aUtHoRiZaTiOn", "Basic abc")]
  grouped := by decide
  named := by decide

/-- The headers of a redirect. -/
def movedHeaders : Headers where
  items := [(HeaderNames.Location, "http://other/")]
  grouped := by decide
  named := by decide

/-- A server sends a request with `Authorization` to another host. What that host answers to the
request without it is stored, and the next request with it finds nothing. -/
def movedRun : List Action :=
  hopOf 0 [.make loginHeaders, .begin getRequest, .send,
    .receive (.ok (plainAnswer 302 movedHeaders.items))] ++
  hopOf 1 [.redirect { request := getRequest, statusCode := 302, headers := movedHeaders }, .send,
    .receive (.ok (plainAnswer 200 [(HeaderNames.ContentLength, "3")])),
    .close "abc" 3 "/temp/1"] ++
  hopOf 2 [.begin getRequest, .send]

theorem stays_private_moved : ∃ s ∈ Runs.run (step Poco.plain CacheReaders.plainJson plainKey)
    (System.init "/cache" 100 CacheReaders.emptyDisk) movedRun,
      (s.shared.store.cache.disk.row "get").isSome ∧ s.writes.length = 1 ∧
      s.begunWith 1 = false ∧ s.sentWith 2 = true ∧
        StaysPrivate Poco.plain CacheReaders.plainJson plainKey s := by
  have hran : ∃ s ∈ Runs.run (step Poco.plain CacheReaders.plainJson plainKey)
      (System.init "/cache" 100 CacheReaders.emptyDisk) movedRun,
        (s.shared.store.cache.disk.row "get").isSome ∧ s.writes.length = 1 ∧
          s.begunWith 1 = false ∧ s.sentWith 2 = true := by decide +kernel
  obtain ⟨s, hrun, hrow, hwrites, hbegun, hsent⟩ := hran
  exact ⟨s, hrun, hrow, hwrites, hbegun, hsent, stays_private rfl rfl hrun⟩

end EasyHttp.AuthorizedCalls
