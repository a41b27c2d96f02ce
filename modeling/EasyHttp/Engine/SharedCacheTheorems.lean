import EasyHttp.Cache.WrittenData
import EasyHttp.Engine.StoredRows

/-!
# What a step of a shared cache does

* `Moved`: an entry that is listed after a step was there before it, with its file and its row (or
  the row that `updateCache` wrote), or it is the one that a closed body has put;
* `step_moved`: so it is after every step whose calls of the cache are sound;
* `answer_allRows`, `step_allWritten`: what holds of all that calls write holds of what is read;
* `Proceeds`, `Resumes`: the ways in which a call can go on.
-/

namespace EasyHttp.SharedCache

open Exec HttpFileCache CacheReaders HttpCacheStrategy HttpEngine StoreCoherence StoredBodies
open HttpCacheInternal

variable {poco : Poco} {json : PocoJson} {makeCacheKey : HttpMethod → String → String}
  {s s' : System} {action : Action}

/-! ## The calls of a step -/

/-- The condition on the calls that a step makes. -/
def SoundCalls (json : PocoJson) (makeCacheKey : HttpMethod → String → String) (s : System)
    (action : Action) : Prop :=
  Runs.EveryStep (CacheReaders.step json) Sound s.store (calls makeCacheKey s action)

instance : Decidable (SoundCalls json makeCacheKey s action) := Runs.decidableEveryStep _ _

/-- A step that is taken. -/
theorem step_some (h : step poco json makeCacheKey s action = some s') :
    ∃ task store, resume poco json makeCacheKey s action = some task ∧
      Runs.run (CacheReaders.step json) s.store (calls makeCacheKey s action) = some store ∧
      s' = { store := store
             tasks := Function.update s.tasks action.task task
             clock := s.clock + 1
             puts := putsAfter json makeCacheKey s action
             validations := validationsAfter makeCacheKey s action task
             removals := removalsAfter makeCacheKey s action store } := by
  unfold step at h
  obtain ⟨task, hresume, h⟩ := Option.bind_eq_some_iff.mp h
  obtain ⟨store, hrun, h⟩ := Option.bind_eq_some_iff.mp h
  cases h
  exact ⟨task, store, hresume, hrun, rfl⟩

/-- The action of the cache for a call. -/
def Action.ask (action : Action) (call : Call) : CacheReaders.Action :=
  { call := call, nowAtEpoch := action.nowAtEpoch, faults := action.faults }

/-- A step makes no call that writes, or it is one of `updateCache`, or the close of a body. -/
theorem calls_cases (s : System) (action : Action) :
    calls makeCacheKey s action = [] ∨
    (∃ call, calls makeCacheKey s action = [action.ask call] ∧ writesRow call = false ∧
      ∀ path content, call ≠ .createFile path content) ∨
    (action.event = .proceed ∧ ∃ found networkResponse httpCacheMetadata serial,
      (s.tasks action.task).stage = .rewriting found networkResponse httpCacheMetadata serial ∧
      calls makeCacheKey s action =
        [action.ask (.putMetadata (keyOf makeCacheKey found.response.request)
          httpCacheMetadata)]) ∨
    (∃ content writtenDataSize path networkResponse receivedAt,
      action.event = .close content writtenDataSize path ∧
      (s.tasks action.task).stage = .storing networkResponse receivedAt ∧
      calls makeCacheKey s action = [action.ask (.createFile path content),
        action.ask (.put (keyOf makeCacheKey networkResponse.request)
          (putCacheMetadata makeCacheKey networkResponse writtenDataSize) path)]) := by
  unfold calls callsOf
  cases action.event with
  | begin request headers =>
    dsimp only
    split
    · exact .inr (.inl ⟨_, rfl, rfl, nofun⟩)
    · exact .inl rfl
  -- after the network the cache is asked once
  | proceed =>
    cases hstage : (s.tasks action.task).stage with
    | updating found networkResponse combinedHeaders =>
      dsimp only
      split
      · exact .inr (.inl ⟨_, rfl, rfl, nofun⟩)
      · exact .inl rfl
    | rewriting found networkResponse httpCacheMetadata serial =>
      exact .inr (.inr (.inl ⟨rfl, found, networkResponse, httpCacheMetadata, serial, rfl, rfl⟩))
    | opening found networkResponse =>
      dsimp only
      split
      · exact .inr (.inl ⟨_, rfl, rfl, nofun⟩)
      · exact .inl rfl
    | removing networkResponse sentAt =>
      dsimp only
      split
      · exact .inr (.inl ⟨_, rfl, rfl, nofun⟩)
      · exact .inl rfl
    | _ => exact .inl rfl
  -- only a body that is closed makes two calls: the file and `put`
  | close content writtenDataSize path =>
    cases hstage : (s.tasks action.task).stage with
    | storing networkResponse receivedAt =>
      dsimp only
      split
      · exact .inr (.inr (.inr ⟨content, writtenDataSize, path, networkResponse, receivedAt, rfl,
          rfl, rfl⟩))
      · exact .inl rfl
    | _ => exact .inl rfl
  | release =>
    cases hstage : (s.tasks action.task).stage with
    | served response found stream => exact .inr (.inl ⟨_, rfl, rfl, nofun⟩)
    | _ => exact .inl rfl
  | evictAll => exact .inr (.inl ⟨_, rfl, rfl, nofun⟩)
  | send => exact .inl rfl
  | receive answer headers => exact .inl rfl

/-! ## What is put -/

/-- What is recorded of the entries that are there does not change. -/
theorem putsAfter_of_lt {key : String} {serial : ℕ} (hlt : serial < s.store.cache.nextSerial) :
    putsAfter json makeCacheKey s action key serial = s.puts key serial := by
  unfold putsAfter
  cases action.event with
  | close content writtenDataSize path =>
    cases (s.tasks action.task).stage with
    | storing networkResponse receivedAt =>
      exact if_neg fun hboth => absurd hlt (Nat.not_lt.mpr hboth.2)
    | _ => rfl
  | _ => rfl

/-- A stream that is closed well puts its response. -/
theorem putsAfter_storing {content path : String} {writtenDataSize : UInt64}
    {networkResponse : Response} {receivedAt serial : ℕ}
    (hevent : action.event = .close content writtenDataSize path)
    (hstage : (s.tasks action.task).stage = .storing networkResponse receivedAt)
    (hle : s.store.cache.nextSerial ≤ serial) :
    putsAfter json makeCacheKey s action (keyOf makeCacheKey networkResponse.request) serial =
      ⟨some ((putCacheMetadata makeCacheKey networkResponse writtenDataSize).toRow json
        action.nowAtEpoch), some content, receivedAt⟩ := by
  unfold putsAfter
  rw [hevent, hstage]
  exact if_pos ⟨rfl, hle⟩

/-! ## What is listed after a step -/

/-- The row that `updateCache` may write for an entry that was there. -/
def Rewrites (json : PocoJson) (makeCacheKey : HttpMethod → String → String) (s : System)
    (action : Action) (key : String) (info : HttpCacheInfo) (row : Row) : Prop :=
  action.event = .proceed ∧ ∃ found networkResponse httpCacheMetadata serial,
    (s.tasks action.task).stage = .rewriting found networkResponse httpCacheMetadata serial ∧
      key = keyOf makeCacheKey found.response.request ∧ isWritable info = true ∧
        row = httpCacheMetadata.toRow json action.nowAtEpoch

/-- The body that the step has closed. -/
def Closes (makeCacheKey : HttpMethod → String → String) (s : System) (action : Action)
    (key : String) (receivedAt : ℕ) : Prop :=
  ∃ content writtenDataSize path networkResponse,
    action.event = .close content writtenDataSize path ∧
      (s.tasks action.task).stage = .storing networkResponse receivedAt ∧
        key = keyOf makeCacheKey networkResponse.request

/-- Where what is listed after a step comes from. -/
structure Moved (json : PocoJson) (makeCacheKey : HttpMethod → String → String) (s : System)
    (action : Action) (store : CacheReaders.System) : Prop where
  inSync : InSync store
  nextSerial_le : s.store.cache.nextSerial ≤ store.cache.nextSerial
  left : ∀ k info', store.cache.entry k = some info' → info'.serial < s.store.cache.nextSerial →
    ∃ info, s.store.cache.entry k = some info ∧ SameEntry info info' ∧
      (storedIn store.cache k).2.2 = (storedIn s.store.cache k).2.2 ∧
      ∀ row', store.cache.disk.row k = some row' →
        (∃ row, s.store.cache.disk.row k = some row ∧ row.Like row') ∨
          Rewrites json makeCacheKey s action k info row'
  made : ∀ k info', store.cache.entry k = some info' → s.store.cache.nextSerial ≤ info'.serial →
    ∃ receivedAt row content, Closes makeCacheKey s action k receivedAt ∧
      putsAfter json makeCacheKey s action k info'.serial = ⟨some row, some content, receivedAt⟩ ∧
      (storedIn store.cache k).2 = (some row, some content)

/-- A step that makes no entry and writes no row. -/
theorem moved_of_follows {store : CacheReaders.System} (hsync : InSync store)
    (hle : s.store.cache.nextSerial ≤ store.cache.nextSerial)
    (hold : ∀ k info', store.cache.entry k = some info' →
      info'.serial < s.store.cache.nextSerial)
    (hfollows : Follows unwritten s.store.cache store.cache) :
    Moved json makeCacheKey s action store where
  inSync := hsync
  nextSerial_le := hle
  left := by
    intro k info' hentry' _
    obtain ⟨info, hentry, hsame, hfile, hrows⟩ := hfollows k info' hentry'
    exact ⟨info, hentry, hsame, hfile, fun row' hrow' => .inl ((hrows row' hrow').resolve_right id)⟩
  made := by
    intro k info' hentry' hnew
    exact absurd (hold k info' hentry') (Nat.not_lt.mpr hnew)

/-- The cache is what the task's operations have made of it. -/
theorem step_moved (h : InSync s.store) (hsound : SoundCalls json makeCacheKey s action)
    (hstep : step poco json makeCacheKey s action = some s') :
    Moved json makeCacheKey s action s'.store := by
  obtain ⟨task, store, -, hrun, rfl⟩ := step_some hstep
  have hsync : InSync store := Runs.run_invariant step_inSync h hrun hsound
  unfold SoundCalls at hsound
  rcases calls_cases s action with hnone | ⟨call, hcall, hno, hfile⟩ |
    ⟨hevent, found, networkResponse, httpCacheMetadata, serial, hstage, hcalls⟩ |
    ⟨content, writtenDataSize, path, networkResponse, receivedAt, hevent, hstage, hcalls⟩
  · rw [hnone] at hrun
    cases hrun
    exact moved_of_follows hsync (Nat.le_refl _) h.serial_lt (follows_refl _)
  · rw [hcall] at hrun hsound
    -- one call that puts nothing
    have hcarried := step_carried h hsound.1 (Runs.run_singleton hrun)
    refine moved_of_follows hsync hcarried.nextSerial_le ?_ (hcarried.follows hno)
    intro k info' hentry'
    obtain ⟨info, hentry, hsame, -⟩ := hcarried.follows hno k info' hentry'
    rw [← hsame.1]
    exact h.serial_lt k info hentry
  · rw [hcalls] at hrun hsound
    -- one call that may put the metadata of the response
    have hcarried := step_carried h hsound.1 (Runs.run_singleton hrun)
    refine ⟨hsync, hcarried.nextSerial_le, fun k info' hentry' hlt => ?_,
      fun k info' hentry' hnew => ?_⟩
    · obtain ⟨info, hentry, hsame, hfile, hrows⟩ := hcarried.left k info' hentry' hlt
      refine ⟨info, hentry, hsame, hfile, fun row' hrow' => (hrows row' hrow').imp_right ?_⟩
      rintro ⟨metadata, hcall, hwritable, hrow⟩
      cases hcall
      exact ⟨hevent, found, networkResponse, httpCacheMetadata, serial, hstage, rfl, hwritable, hrow⟩
    · obtain ⟨_, _, hcall, -⟩ := hcarried.made k info' hentry' hnew
      cases hcall
  · rw [hcalls] at hrun hsound
    -- the body is a file first, and `put` comes after it
    obtain ⟨created, hcreate, hrest⟩ := Runs.run_cons hrun
    have hput := Runs.run_singleton hrest
    have hsound' := hsound.cons hcreate
    have hcreated := step_carried h hsound'.1 hcreate
    have hfirst := hcreated.follows rfl
    have hcarried := step_carried (step_inSync _ _ _ h hsound'.1 hcreate) hsound'.2.1 hput
    have hfile : created.cache.disk.file path = some content := by
      cases hcreate
      exact (congrFun (SortedMap.find?_set_eq _ path content) path).trans (Function.update_self ..)
    have hle := hcreated.nextSerial_le
    refine ⟨hsync, hle.trans hcarried.nextSerial_le, fun k info' hentry' hlt => ?_,
      fun k info' hentry' hnew => ?_⟩
    -- what was there before both calls was there before the first
    · obtain ⟨info, hentry, hsame, hfile', hrows⟩ :=
        hcarried.left k info' hentry' (Nat.lt_of_lt_of_le hlt hle)
      obtain ⟨first, hentry₀, hsame₀, hfile₀, hrows₀⟩ := hfirst k info hentry
      refine ⟨first, hentry₀, hsame₀.trans hsame, hfile'.trans hfile₀, fun row' hrow' => .inl ?_⟩
      obtain ⟨row, hrow, hlike⟩ := (hrows row' hrow').resolve_right nofun
      obtain ⟨row₀, hrow₀, hlike₀⟩ := (hrows₀ row hrow).resolve_right id
      exact ⟨row₀, hrow₀, like_trans hlike₀ hlike⟩
    · have hmade : created.cache.nextSerial ≤ info'.serial := by
        by_contra hlt
        obtain ⟨info, hentry, hsame, -⟩ := hcarried.left k info' hentry' (Nat.lt_of_not_le hlt)
        obtain ⟨first, hentry₀, hsame₀, -⟩ := hfirst k info hentry
        have hold : first.serial < s.store.cache.nextSerial := h.serial_lt k first hentry₀
        have hsame₁ := hsame.1
        have hsame₂ := hsame₀.1
        omega
      obtain ⟨metadata, path', hcall, hstored⟩ := hcarried.made k info' hentry' hmade
      cases hcall
      rw [hfile] at hstored
      exact ⟨receivedAt, _, content, ⟨content, writtenDataSize, path, networkResponse, hevent, hstage,
        rfl⟩, putsAfter_storing hevent hstage hnew, hstored⟩

/-! ## What the cache answers -/

/-- Metadata are read from the row of the entry that is listed. -/
theorem answer_listed (h : InSync s.store) {key : String} {httpCacheMetadata : HttpCacheMetadata}
    (hanswer : answer (getMetadata json key) s action = .ok (some httpCacheMetadata)) :
    ∃ info row, s.store.cache.entry key = some info ∧ info.reservedRemove = false ∧
      listedSerial s key = info.serial ∧ s.store.cache.disk.row key = some row ∧
        row.getMetadata json key = .ok httpCacheMetadata := by
  have hs : Synced (CacheReaders.start s.store.cache (action.ask (.getMetadata key))) := h.start _
  obtain ⟨info, row, hentry, hreserved, hrow, hread⟩ := answer_getMetadata hs
    (t := (exec (getMetadata json key) _).2) (Prod.ext hanswer rfl)
  have hentry : s.store.cache.entry key = some info := hentry
  refine ⟨info, row, hentry, hreserved, ?_, hrow, hread⟩
  unfold listedSerial
  rw [hentry]
  rfl

/-- A stream is opened on the file of the entry that is listed. -/
theorem answer_opened (h : InSync s.store) {key : String} {stream : CacheStream}
    (hanswer : answer (getData key) s action = .ok (some stream)) :
    ∃ info, s.store.cache.entry key = some info ∧ info.reservedRemove = false ∧
      stream.serial = info.serial ∧ (storedIn s.store.cache key).2.2 = some stream.content := by
  have hs : Synced (CacheReaders.start s.store.cache (action.ask (.getData key))) := h.start _
  exact answer_getData hs (t := (exec (getData key) _).2) (Prod.ext hanswer rfl)

/-! ## What is on the disk -/

section
open WrittenData
variable {P : String → Row → Prop} {B : String → Prop}

/-- The metadata that a call reads are those of a row like one that is there. -/
theorem answer_allRows (h : AllRows P s.store.cache.disk) {key : String}
    {httpCacheMetadata : HttpCacheMetadata}
    (hanswer : answer (getMetadata json key) s action = .ok (some httpCacheMetadata)) :
    ∃ row, P key row ∧ row.getMetadata json key = .ok httpCacheMetadata := by
  have hread := wp_ok (wp_getMetadata_allRows (s := { s.store.cache with
      disk := { s.store.cache.disk with
        nowAtEpoch := action.nowAtEpoch
        faults := action.faults } }) h key)
    (t := (exec (getMetadata json key) _).2) (Prod.ext hanswer rfl)
  exact hread httpCacheMetadata rfl

/-- A step writes the row of a call in `updateCache`, or the row and the body of a closed stream. -/
theorem step_allWritten (hP : IgnoresAccess P) (h : AllWritten P B s.store.cache.disk)
    (hupdate : ∀ found networkResponse httpCacheMetadata serial, action.event = .proceed →
      (s.tasks action.task).stage = .rewriting found networkResponse httpCacheMetadata serial →
      ∀ nowAtEpoch, P httpCacheMetadata.key (httpCacheMetadata.toRow json nowAtEpoch))
    (hclose : ∀ content writtenDataSize path networkResponse receivedAt,
      action.event = .close content writtenDataSize path →
      (s.tasks action.task).stage = .storing networkResponse receivedAt →
      B content ∧ ∀ nowAtEpoch, P (keyOf makeCacheKey networkResponse.request)
        ((putCacheMetadata makeCacheKey networkResponse writtenDataSize).toRow json nowAtEpoch))
    (hstep : step poco json makeCacheKey s action = some s') :
    AllWritten P B s'.store.cache.disk := by
  obtain ⟨task, store, -, hrun, rfl⟩ := step_some hstep
  refine run_allWritten hP h (fun asked hasked => ?_) hrun
  rcases calls_cases s action with hnone | ⟨call, hcall, hno, hfile⟩ |
    ⟨hevent, found, networkResponse, httpCacheMetadata, serial, hstage, hcalls⟩ |
    ⟨content, writtenDataSize, path, networkResponse, receivedAt, hevent, hstage, hcalls⟩
  · rw [hnone] at hasked
    cases hasked
  · rw [hcall] at hasked
    -- the call is not `put`, and creates no file
    cases List.mem_singleton.mp hasked
    unfold Action.ask
    cases call with
    | putMetadata key httpCacheMetadata => cases hno
    | put key httpCacheMetadata path => cases hno
    | createFile path content => exact absurd rfl (hfile path content)
    | _ => trivial
  · rw [hcalls] at hasked
    cases List.mem_singleton.mp hasked
    exact hupdate found networkResponse httpCacheMetadata serial hevent hstage
  · rw [hcalls] at hasked
    -- the file and the row are those of the response that was stored
    obtain ⟨hcontent, hrow⟩ :=
      hclose content writtenDataSize path networkResponse receivedAt hevent hstage
    rcases List.mem_cons.mp hasked with rfl | hput
    · exact hcontent
    · cases List.mem_singleton.mp hput
      exact hrow

end

/-! ## Where a call stands after a step -/

variable {request : Request} {metadata : Option HttpCacheMetadata} {nowAtEpoch : Int64}
  {headers : HeaderStore} {serial : ℕ} {task : Task} {f : Found}

/-- The stored response that a call has in hand. -/
def foundOf : Stage → Option Found
  | .sending _ found | .receiving _ found _ => found
  | .updating found _ _ | .rewriting found _ _ _ | .opening found _ | .served _ found _ =>
    some found
  | _ => none

/-- A lookup ends the call, or the stored response is used, or a request is sent. -/
theorem afterLookup_cases (poco : Poco) (request : Request) (metadata : Option HttpCacheMetadata)
    (nowAtEpoch : Int64) (headers : HeaderStore) (serial : ℕ) :
    afterLookup poco request metadata nowAtEpoch headers serial = .finished ∨
    (∃ f, afterLookup poco request metadata nowAtEpoch headers serial = .opening f none ∧
      f.serial = serial ∧ f.response.request = request ∧
      ∃ m stored, metadata = some m ∧
        createResponseFromCacheMetadata poco request m = .ok stored ∧
          SameEntity stored f.response) ∨
    (∃ networkRequest found,
      afterLookup poco request metadata nowAtEpoch headers serial =
        .sending networkRequest found ∧
      ∀ f ∈ found, f.serial = serial ∧ f.response.request = request ∧
        ∃ m, metadata = some m ∧
          createResponseFromCacheMetadata poco request m = .ok f.response) := by
  unfold afterLookup
  rcases hrun : exec (createCacheStrategy poco request metadata nowAtEpoch.toUInt64) headers with
    ⟨r, headers'⟩
  cases r with
  | error e => exact .inl rfl
  | ok cacheStrategy =>
    -- a response that was found comes from the metadata
    have hfound := fun response (hsome : cacheStrategy.cacheResponse = some response) =>
      createCacheStrategy_cacheResponse hrun hsome
    obtain ⟨networkRequest, cacheResponse⟩ := cacheStrategy
    cases networkRequest with
    | none =>
      cases cacheResponse with
      | none => exact .inl rfl
      | some cacheResponse =>
        obtain ⟨m, stored, hm, hcreate, hsame, hrequest, -⟩ := hfound cacheResponse rfl
        exact .inr (.inl ⟨_, rfl, rfl, hrequest, m, stored, hm, hcreate, hsame⟩)
    | some networkRequest =>
      -- the request is sent, with or without a stored response
      refine .inr (.inr ⟨networkRequest, _, rfl, fun f hf => ?_⟩)
      obtain ⟨cacheResponse', hcache, rfl⟩ := Option.map_eq_some_iff.mp hf
      have hcache : cacheResponse = some cacheResponse' := hcache
      obtain ⟨m, stored, hm, hcreate, -, hrequest, hwhole⟩ := hfound cacheResponse' hcache
      rw [← hwhole (Option.some_ne_none _)] at hcreate
      exact ⟨rfl, hrequest, m, hm, hcreate⟩

/-- A lookup leaves a stored response only to a request that is available to the cache. -/
theorem checkCache_cases (poco : Poco) (json : PocoJson)
    (makeCacheKey : HttpMethod → String → String) (s : System) (action : Action)
    (request : Request) (headers : HeaderStore) :
    checkCache poco json makeCacheKey s action request headers = .finished ∨
    (∃ f, checkCache poco json makeCacheKey s action request headers = .opening f none ∧
      isAvailableToCache request headers = true) ∨
    ∃ networkRequest found,
      checkCache poco json makeCacheKey s action request headers = .sending networkRequest found ∧
      ∀ f ∈ found, isAvailableToCache request headers = true ∧
        ∃ m, answer (getMetadata json (keyOf makeCacheKey request)) s action = .ok (some m) ∧
          createResponseFromCacheMetadata poco request m = .ok f.response := by
  unfold checkCache
  dsimp only
  -- a request that is available to the cache has a key, or is sent as it is
  by_cases havailable : isAvailableToCache request headers = true
  · rw [if_neg (by rw [havailable]; exact Bool.false_ne_true)]
    by_cases hkey : keyOf makeCacheKey request = ""
    · rw [if_pos hkey]
      rcases afterLookup_cases poco request none action.nowAtEpoch headers 0 with
        hafter | ⟨f, hafter, -, -, m, -, hm, -⟩ | ⟨networkRequest, found, hafter, hall⟩
      · exact .inl hafter
      · cases hm
      · refine .inr (.inr ⟨networkRequest, found, hafter, fun f hf => ?_⟩)
        obtain ⟨-, -, m, hm, -⟩ := hall f hf
        cases hm
    · rw [if_neg hkey]
      cases hanswer : answer (getMetadata json (keyOf makeCacheKey request)) s action with
      | error e => exact .inl rfl
      | ok metadata =>
        dsimp only
        rcases afterLookup_cases poco request metadata action.nowAtEpoch headers
          (listedSerial s (keyOf makeCacheKey request)) with
          hafter | ⟨f, hafter, -⟩ | ⟨networkRequest, found, hafter, hall⟩
        · exact .inl hafter
        · exact .inr (.inl ⟨f, hafter, havailable⟩)
        · refine .inr (.inr ⟨networkRequest, found, hafter, fun f hf => ⟨havailable, ?_⟩⟩)
          obtain ⟨-, -, m, rfl, hcreate⟩ := hall f hf
          exact ⟨m, rfl, hcreate⟩
  · rw [Bool.not_eq_true] at havailable
    rw [havailable, if_pos (Bool.not_false)]
    refine .inr (.inr ⟨request, none, rfl, fun f hf => ?_⟩)
    cases hf

/-- A stored response that a lookup has found is the one of the entry that is listed. -/
theorem checkCache_found
    (hfound : foundOf (checkCache poco json makeCacheKey s action request headers) = some f) :
    f.serial = listedSerial s (keyOf makeCacheKey request) ∧ f.response.request = request ∧
      isAvailableToCache request headers = true ∧
      ∃ m, answer (getMetadata json (keyOf makeCacheKey request)) s action = .ok (some m) := by
  -- what was found comes from metadata that the cache answered
  have hlookup : ∀ {metadata serial}, foundOf (afterLookup poco request metadata
      action.nowAtEpoch headers serial) = some f →
        f.serial = serial ∧ f.response.request = request ∧ ∃ m, metadata = some m := by
    intro metadata serial hfound
    rcases afterLookup_cases poco request metadata action.nowAtEpoch headers serial with
      hfinished | ⟨f', hopening, hserial, hrequest, m, -, hm, -⟩ |
      ⟨networkRequest, found, hsending, hall⟩
    · rw [hfinished] at hfound
      cases hfound
    · rw [hopening] at hfound
      cases hfound
      exact ⟨hserial, hrequest, m, hm⟩
    · rw [hsending] at hfound
      obtain ⟨hserial, hrequest, m, hm, -⟩ := hall f hfound
      exact ⟨hserial, hrequest, m, hm⟩
  unfold checkCache at hfound
  dsimp only at hfound
  split at hfound
  · cases hfound
  rename_i havailable
  rw [Bool.not_eq_true, Bool.not_eq_false'] at havailable
  split at hfound
  · obtain ⟨-, -, m, hm⟩ := hlookup hfound
    cases hm
  · cases hanswer : answer (getMetadata json (keyOf makeCacheKey request)) s action with
    | error e =>
      rw [hanswer] at hfound
      cases hfound
    | ok metadata =>
      rw [hanswer] at hfound
      obtain ⟨hserial, hrequest, m, rfl⟩ := hlookup hfound
      exact ⟨hserial, hrequest, havailable, m, rfl⟩

/-- The response for the user is the stored one, but for its headers and times. -/
theorem userResponse_same {env : Surroundings} {cacheResponse response : Response}
    {networkResponse : Option Response} (h : createUserResponseFromCacheResponse env request
      cacheResponse networkResponse = .ok response) :
    response.request = request ∧ SameEntity cacheResponse response := by
  have hbody : ∀ body, createResponseBodyFromCache env cacheResponse = .ok body →
      body.hasContentLength = cacheResponse.hasContentLength ∧
        body.contentLength = cacheResponse.contentLength := by
    intro body h
    unfold createResponseBodyFromCache at h
    split at h
    · cases h
      exact ⟨rfl, rfl⟩
    · cases h
  unfold createUserResponseFromCacheResponse at h
  cases networkResponse with
  | none =>
    obtain ⟨body, hcreate, h⟩ := exists_of_bind_ok h
    cases h
    exact ⟨rfl, rfl, (hbody body hcreate).1, (hbody body hcreate).2⟩
  | some networkResponse =>
    obtain ⟨combinedHeaders, -, h⟩ := exists_of_bind_ok h
    obtain ⟨body, hcreate, h⟩ := exists_of_bind_ok h
    cases h
    exact ⟨rfl, rfl, (hbody body hcreate).1, (hbody body hcreate).2⟩

/-- A body that cannot be opened ends the task. -/
theorem afterOpen_cases (request : Request) (found : Found) (networkResponse : Option Response)
    (stream : Option CacheStream) :
    afterOpen request found networkResponse stream = .finished ∨ ∃ response opened,
      afterOpen request found networkResponse stream = .served response found opened ∧
        stream = some opened ∧ response.request = request ∧ SameEntity found.response response := by
  unfold afterOpen
  split
  · rename_i response hresponse
    exact .inr ⟨response, _, rfl, rfl, userResponse_same hresponse⟩
  · exact .inl rfl

/-- The ways in which `proceed` can end. -/
inductive Proceeds (json : PocoJson) (makeCacheKey : HttpMethod → String → String) (s : System)
    (action : Action) (task : Task) : Stage → Prop
  | finished : Proceeds json makeCacheKey s action task .finished
  | skipped {found : Found} {networkResponse : Response} {combinedHeaders : Headers}
    (hstage : task.stage = .updating found networkResponse combinedHeaders) :
    Proceeds json makeCacheKey s action task (.opening found (some networkResponse))
  | reread {found : Found} {networkResponse : Response} {combinedHeaders : Headers}
    {httpCacheMetadata : HttpCacheMetadata}
    (hstage : task.stage = .updating found networkResponse combinedHeaders)
    (hanswer : answer (getMetadata json (keyOf makeCacheKey found.response.request)) s action =
      .ok (some httpCacheMetadata)) :
    Proceeds json makeCacheKey s action task (.rewriting found networkResponse
      (updatedMetadata httpCacheMetadata networkResponse combinedHeaders)
      (listedSerial s (keyOf makeCacheKey found.response.request)))
  | rewritten {found : Found} {networkResponse : Response}
    {httpCacheMetadata : HttpCacheMetadata} {serial : ℕ}
    (hstage : task.stage = .rewriting found networkResponse httpCacheMetadata serial) :
    Proceeds json makeCacheKey s action task (.opening found (some networkResponse))
  | opened {found : Found} {networkResponse : Option Response} {stream : CacheStream}
    {response : Response} (hstage : task.stage = .opening found networkResponse)
    (hanswer : answer (getData (keyOf makeCacheKey found.response.request)) s action =
      .ok (some stream))
    (hrequest : response.request = task.request) (hsame : SameEntity found.response response) :
    Proceeds json makeCacheKey s action task (.served response found stream)

/-- A task goes on in one of these ways. -/
theorem proceeds {stage : Stage} (h : proceed json makeCacheKey s action task = some stage) :
    Proceeds json makeCacheKey s action task stage := by
  obtain ⟨request, begunAt, before⟩ := task
  unfold proceed at h
  cases before with
  | updating found networkResponse combinedHeaders =>
    dsimp only at h
    split at h
    · cases h
      exact .skipped rfl
    · cases hanswer : answer (getMetadata json (keyOf makeCacheKey found.response.request)) s
        action with
      -- what the database answers decides the next stage
      | error e =>
        rw [hanswer] at h
        cases h
        exact .finished
      | ok metadata =>
        rw [hanswer] at h
        cases metadata with
        | none =>
          cases h
          exact .skipped rfl
        | some metadata =>
          cases h
          exact .reread rfl hanswer
  | rewriting found networkResponse httpCacheMetadata serial =>
    dsimp only at h
    split at h <;> cases h
    · exact .finished
    · exact .rewritten rfl
  | opening found networkResponse =>
    dsimp only at h
    split at h
    · cases h
      exact .finished
    · cases hanswer : answer (getData (keyOf makeCacheKey found.response.request)) s action with
      | error e =>
        rw [hanswer] at h
        cases h
        exact .finished
      | ok stream =>
        rw [hanswer] at h
        cases h
        rcases afterOpen_cases request found networkResponse stream with hafter |
          ⟨response, opened, hafter, rfl, hrequest, hsame⟩
        · rw [hafter]
          exact .finished
        · rw [hafter]
          exact .opened rfl hanswer hrequest hsame
  | removing networkResponse sentAt =>
    cases h
    exact .finished
  | _ => cases h

/-- The ways in which a task can go on. -/
inductive Resumes (poco : Poco) (json : PocoJson) (makeCacheKey : HttpMethod → String → String)
    (s : System) (action : Action) : Task → Prop
  | begun {request : Request} {headers : HeaderStore}
    (hevent : action.event = .begin request headers) :
    Resumes poco json makeCacheKey s action
      ⟨request, s.clock, checkCache poco json makeCacheKey s action request headers⟩
  | sent {networkRequest : Request} {found : Option Found}
    (hstage : (s.tasks action.task).stage = .sending networkRequest found)
    (hevent : action.event = .send) :
    Resumes poco json makeCacheKey s action
      { s.tasks action.task with stage := .receiving networkRequest found s.clock }
  | received {answer : Except HttpException NetworkAnswer} {headers : HeaderStore}
    {networkRequest networkResponse : _} {found : Option Found} {sentAt : ℕ}
    (hevent : action.event = .receive answer headers)
    (hstage : (s.tasks action.task).stage = .receiving networkRequest found sentAt)
    (hanswer : sendRequestAndReceiveResponseWithRetryByConnection poco (meets answer false)
      networkRequest = .ok networkResponse) :
    Resumes poco json makeCacheKey s action { s.tasks action.task with
      stage := afterReceive poco networkResponse found sentAt s.clock headers }
  | proceeded {stage : Stage} (hevent : action.event = .proceed)
    (hproceeds : Proceeds json makeCacheKey s action (s.tasks action.task) stage) :
    Resumes poco json makeCacheKey s action { s.tasks action.task with stage := stage }
  | ended : Resumes poco json makeCacheKey s action { s.tasks action.task with stage := .finished }
  | same (hevent : action.event = .evictAll) :
    Resumes poco json makeCacheKey s action (s.tasks action.task)

/-- A task that got an answer goes on in one of these ways. -/
theorem resumes (h : resume poco json makeCacheKey s action = some task) :
    Resumes poco json makeCacheKey s action task := by
  unfold resume at h
  -- an event is of use at its own stage only; at others the task stays
  cases hevent : action.event with
  | begin request headers =>
    rw [hevent] at h
    dsimp only at h
    split at h <;> cases h <;> exact .begun hevent
  | send =>
    rw [hevent] at h
    dsimp only at h
    split at h <;> cases h
    exact .sent (by assumption) hevent
  | receive answer headers =>
    rw [hevent] at h
    dsimp only at h
    split at h
    · split at h <;> cases h
      · exact .ended
      · exact .received hevent (by assumption) (by assumption)
    · cases h
  | proceed =>
    rw [hevent] at h
    obtain ⟨stage, hproceed, rfl⟩ := Option.map_eq_some_iff.mp h
    exact .proceeded hevent (proceeds hproceed)
  | close content writtenDataSize path =>
    rw [hevent] at h
    dsimp only at h
    split at h <;> cases h
    exact .ended
  | release =>
    rw [hevent] at h
    dsimp only at h
    split at h <;> cases h
    exact .ended
  | evictAll =>
    rw [hevent] at h
    cases h
    exact .same hevent

/-- After an answer, the stored response is updated, or none is in hand. -/
theorem afterReceive_cases (poco : Poco) (networkResponse : Response) (found : Option Found)
    (sentAt receivedAt : ℕ) (headers : HeaderStore) :
    (∃ f combinedHeaders, afterReceive poco networkResponse found sentAt receivedAt headers =
        .updating f networkResponse combinedHeaders ∧ found = some f ∧
      isValidCacheResponse poco f.response networkResponse = true ∧
        combineCacheAndNetworkHeader f.response networkResponse = .ok combinedHeaders) ∨
    afterReceive poco networkResponse found sentAt receivedAt headers = .finished ∨
    afterReceive poco networkResponse found sentAt receivedAt headers =
      .storing networkResponse receivedAt ∨
    afterReceive poco networkResponse found sentAt receivedAt headers =
      .removing networkResponse sentAt := by
  unfold afterReceive
  cases hvalid : found.filter fun f =>
      isValidCacheResponse poco f.response networkResponse with
  | none =>
    dsimp only
    split
    · exact .inr (.inr (.inl rfl))
    split
    · exact .inr (.inr (.inr rfl))
    · exact .inr (.inl rfl)
  | some f =>
    dsimp only
    obtain ⟨hf, hconfirms⟩ := Option.filter_eq_some_iff.mp hvalid
    cases hcombined : combineCacheAndNetworkHeader f.response networkResponse with
    | error e => exact .inr (.inl rfl)
    | ok combinedHeaders => exact .inl ⟨f, combinedHeaders, rfl, hf, hconfirms, hcombined⟩

/-- What a task has found is what it had found. -/
theorem Proceeds.found {stage : Stage} (h : Proceeds json makeCacheKey s action task stage)
    (hfound : foundOf stage = some f) : foundOf task.stage = some f := by
  cases h with
  | finished => cases hfound
  | skipped hstage => rw [hstage]; exact hfound
  | reread hstage hanswer => rw [hstage]; exact hfound
  | rewritten hstage => rw [hstage]; exact hfound
  | opened hstage hanswer hrequest hsame => rw [hstage]; exact hfound

/-- A stored response in hand was in hand before, or the call has just begun with its lookup. -/
theorem Resumes.found (h : Resumes poco json makeCacheKey s action task)
    (hfound : foundOf task.stage = some f) :
    (foundOf (s.tasks action.task).stage = some f ∧
      task.request = (s.tasks action.task).request ∧
      task.begunAt = (s.tasks action.task).begunAt) ∨
    (task.begunAt = s.clock ∧ ∃ headers,
      foundOf (checkCache poco json makeCacheKey s action task.request headers) = some f) := by
  cases h with
  | begun hevent => exact .inr ⟨rfl, _, hfound⟩
  | sent hstage =>
    rw [hstage]
    exact .inl ⟨hfound, rfl, rfl⟩
  | @received answer headers networkRequest networkResponse found sentAt hevent hstage hanswer =>
    rw [hstage]
    refine .inl ⟨?_, rfl, rfl⟩
    rcases afterReceive_cases poco networkResponse found sentAt s.clock headers with
      ⟨f', combinedHeaders, hafter, hf, -⟩ | hafter | hafter | hafter
    · have hfound : foundOf (afterReceive poco networkResponse found sentAt s.clock headers) =
        some f := hfound
      rw [hafter] at hfound
      cases hfound
      exact hf
    all_goals
      have hfound : foundOf (afterReceive poco networkResponse found sentAt s.clock headers) =
        some f := hfound
      rw [hafter] at hfound
      cases hfound
  | proceeded hevent hproceeds => exact .inl ⟨hproceeds.found hfound, rfl, rfl⟩
  | ended => cases hfound
  | same => exact .inl ⟨hfound, rfl, rfl⟩

theorem Resumes.begunAt_le (h : Resumes poco json makeCacheKey s action task)
    (hlt : (s.tasks action.task).begunAt < s.clock) : task.begunAt ≤ s.clock := by
  cases h with
  | begun hevent => exact Nat.le_refl _
  | _ => exact Nat.le_of_lt hlt

/-- Nothing is served before its body is opened. -/
theorem checkCache_ne_served {response : Response} {stream : CacheStream} :
    checkCache poco json makeCacheKey s action request headers ≠ .served response f stream := by
  intro heq
  rcases checkCache_cases poco json makeCacheKey s action request headers with
    hafter | ⟨f', hafter, -⟩ | ⟨networkRequest, found, hafter, -⟩ <;>
  · rw [hafter] at heq
    cases heq

/-- A call that is served was so before, or it has just opened the body of the entry. -/
theorem Resumes.served {response : Response} {stream : CacheStream}
    (h : Resumes poco json makeCacheKey s action task)
    (hserved : task.stage = .served response f stream) :
    task = s.tasks action.task ∨
    (action.event = .proceed ∧ task.request = (s.tasks action.task).request ∧
      task.begunAt = (s.tasks action.task).begunAt ∧ ∃ networkResponse,
      (s.tasks action.task).stage = .opening f networkResponse ∧
      answer (getData (keyOf makeCacheKey f.response.request)) s action = .ok (some stream)) := by
  cases h with
  | begun hevent => exact absurd hserved checkCache_ne_served
  | sent hstage => cases hserved
  | @received answer headers networkRequest networkResponse found sentAt hevent hstage hanswer =>
    have hserved : afterReceive poco networkResponse found sentAt s.clock headers =
      .served response f stream := hserved
    rcases afterReceive_cases poco networkResponse found sentAt s.clock headers with
      ⟨_, _, hafter, -⟩ | hafter | hafter | hafter <;>
    · rw [hafter] at hserved
      cases hserved
  | proceeded hevent hproceeds =>
    cases hserved
    cases hproceeds with
    | opened hstage hanswer hrequest hsame => exact .inr ⟨hevent, rfl, rfl, _, hstage, hanswer⟩
  | ended => cases hserved
  | same => exact .inl rfl

end EasyHttp.SharedCache
