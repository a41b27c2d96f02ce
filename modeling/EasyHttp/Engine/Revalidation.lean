import EasyHttp.Engine.PlainWrites
import EasyHttp.Engine.SharedCacheTheorems

/-!
# Revalidations beside stores

`updateCache` reads the metadata of an entry and puts them back in a later call of the cache, and
a response from the cache gets its body in a later call than its metadata. Other calls may store
another response under the key in between.

* `EntriesBelong`: what is stored for an entry belongs to its body;
* `NotOvertaken`, `NotExchanged`: the conditions on a step under which nothing was stored in
  between;
* `entries_belong`: along runs of steps that are not overtaken, every row belongs to its body;
* `one_response`: if the body is not exchanged either, a response from the cache is one that was
  put;
* `validators_confirmed`: the headers of an entry were put with its body or confirmed it.
-/

namespace EasyHttp.SharedCache

open Exec HttpFileCache CacheReaders HttpCacheStrategy HttpEngine StoreCoherence StoredBodies
open HttpCacheInternal

/-! ## What is to hold -/

section
variable (poco : Poco) (json : PocoJson) (makeCacheKey : HttpMethod → String → String) (s : System)

/-- A row that belongs to what was put for an entry. -/
def RowOf (key : String) (serial : ℕ) (row : Row) : Prop :=
  Belongs poco json s.validations key serial (s.puts key serial) row

/-- Every entry has the body that was put for it and a row that belongs to that body. -/
def EntriesBelong : Prop :=
  ∀ key info, s.store.cache.entry key = some info →
    (storedIn s.store.cache key).2.2 = (s.puts key info.serial).body ∧
      ∃ row, s.store.cache.disk.row key = some row ∧ RowOf poco json s key info.serial row

/-- A stored response as it was read for a request. -/
structure IsRead (request : Request) (found : Found) : Prop where
  request_eq : found.response.request = request
  serial_lt : found.serial < s.store.cache.nextSerial
  row : ∃ row, RowOf poco json s (keyOf makeCacheKey request) found.serial row ∧
    readResponse poco json (keyOf makeCacheKey request) request row = .ok found.response

/-- A stored response, perhaps with warnings. -/
structure IsStored (request : Request) (found : Found) : Prop where
  request_eq : found.response.request = request
  serial_lt : found.serial < s.store.cache.nextSerial
  row : ∃ row stored, RowOf poco json s (keyOf makeCacheKey request) found.serial row ∧
    readResponse poco json (keyOf makeCacheKey request) request row = .ok stored ∧
      SameEntity stored found.response

/-- The answer was taken to confirm the stored response. -/
structure IsConfirmed (found : Found) (networkResponse : Response) : Prop where
  valid : isValidCacheResponse poco found.response networkResponse = true
  mem : ⟨keyOf makeCacheKey found.response.request, found, networkResponse⟩ ∈ s.validations

/-- The metadata to put are those of an entry, updated. -/
structure IsUpdated (key : String) (found : Found) (networkResponse : Response)
    (httpCacheMetadata : HttpCacheMetadata) (serial : ℕ) : Prop where
  serial_lt : serial < s.store.cache.nextSerial
  row : ∃ row metadata combinedHeaders, RowOf poco json s key serial row ∧
    row.getMetadata json key = .ok metadata ∧
      combineCacheAndNetworkHeader found.response networkResponse = .ok combinedHeaders ∧
        httpCacheMetadata = updatedMetadata metadata networkResponse combinedHeaders

/-- The user has the stored response, with the body of an entry. -/
structure IsServed (request : Request) (response : Response) (found : Found)
    (stream : CacheStream) : Prop where
  request_eq : response.request = request
  same : SameEntity found.response response
  serial_lt : stream.serial < s.store.cache.nextSerial
  body : (s.puts (keyOf makeCacheKey request) stream.serial).body = some stream.content

/-- What a call has in hand. -/
def StageOk (request : Request) : Stage → Prop
  | .sending _ found | .receiving _ found _ =>
    ∀ f ∈ found, IsRead poco json makeCacheKey s request f
  | .updating found networkResponse combinedHeaders =>
    IsRead poco json makeCacheKey s request found ∧
      IsConfirmed poco makeCacheKey s found networkResponse ∧
        combineCacheAndNetworkHeader found.response networkResponse = .ok combinedHeaders
  | .rewriting found networkResponse httpCacheMetadata serial =>
    IsRead poco json makeCacheKey s request found ∧
      IsConfirmed poco makeCacheKey s found networkResponse ∧
        IsUpdated poco json s (keyOf makeCacheKey request) found networkResponse httpCacheMetadata
          serial
  | .opening found _ => IsStored poco json makeCacheKey s request found
  | .served response found stream =>
    IsStored poco json makeCacheKey s request found ∧
      IsServed makeCacheKey s request response found stream
  | _ => True

/-- The invariant. -/
structure Inv : Prop where
  inSync : InSync s.store
  entries : EntriesBelong poco json s
  stages : ∀ i, StageOk poco json makeCacheKey s (s.tasks i).request (s.tasks i).stage

end

/-! ## What stays -/

variable {poco : Poco} {json : PocoJson} {makeCacheKey : HttpMethod → String → String}
  {s s' : System} {action : Action} {request : Request} {found : Found} {key : String}
  {serial : ℕ} {row : Row}

/-- The record has grown. -/
structure Grown (s s' : System) : Prop where
  nextSerial_le : s.store.cache.nextSerial ≤ s'.store.cache.nextSerial
  puts_eq : ∀ key serial, serial < s.store.cache.nextSerial →
    s'.puts key serial = s.puts key serial
  validations_subset : s.validations ⊆ s'.validations

theorem RowOf.grown (h : RowOf poco json s key serial row) (hgrown : Grown s s')
    (hlt : serial < s.store.cache.nextSerial) : RowOf poco json s' key serial row := by
  unfold RowOf
  rw [hgrown.puts_eq key serial hlt]
  exact h.mono hgrown.validations_subset

theorem IsRead.grown (h : IsRead poco json makeCacheKey s request found) (hgrown : Grown s s') :
    IsRead poco json makeCacheKey s' request found where
  request_eq := h.request_eq
  serial_lt := Nat.lt_of_lt_of_le h.serial_lt hgrown.nextSerial_le
  row := by
    obtain ⟨row, hrow, hread⟩ := h.row
    exact ⟨row, hrow.grown hgrown h.serial_lt, hread⟩

theorem IsStored.grown (h : IsStored poco json makeCacheKey s request found)
    (hgrown : Grown s s') : IsStored poco json makeCacheKey s' request found where
  request_eq := h.request_eq
  serial_lt := Nat.lt_of_lt_of_le h.serial_lt hgrown.nextSerial_le
  row := by
    obtain ⟨row, stored, hrow, hread⟩ := h.row
    exact ⟨row, stored, hrow.grown hgrown h.serial_lt, hread⟩

/-- What was read is stored. -/
theorem IsRead.isStored (h : IsRead poco json makeCacheKey s request found) :
    IsStored poco json makeCacheKey s request found where
  request_eq := h.request_eq
  serial_lt := h.serial_lt
  row := by
    obtain ⟨row, hrow, hread⟩ := h.row
    exact ⟨row, found.response, hrow, hread, SameEntity.refl _⟩

theorem StageOk.grown {stage : Stage} (h : StageOk poco json makeCacheKey s request stage)
    (hgrown : Grown s s') : StageOk poco json makeCacheKey s' request stage := by
  have hconfirmed : ∀ {found networkResponse}, IsConfirmed poco makeCacheKey s found
      networkResponse → IsConfirmed poco makeCacheKey s' found networkResponse :=
    fun hc => ⟨hc.valid, hgrown.validations_subset hc.mem⟩
  cases stage with
  | sending networkRequest found => exact fun f hf => (h f hf).grown hgrown
  | receiving networkRequest found sentAt => exact fun f hf => (h f hf).grown hgrown
  | updating found networkResponse combinedHeaders =>
    exact ⟨h.1.grown hgrown, hconfirmed h.2.1, h.2.2⟩
  | rewriting found networkResponse httpCacheMetadata serial =>
    obtain ⟨hread, hc, hlt, row, metadata, combinedHeaders, hrow, hrest⟩ := h
    exact ⟨hread.grown hgrown, hconfirmed hc, Nat.lt_of_lt_of_le hlt hgrown.nextSerial_le, row,
      metadata, combinedHeaders, hrow.grown hgrown hlt, hrest⟩
  | opening found networkResponse => exact IsStored.grown h hgrown
  | served response found stream =>
    obtain ⟨hstored, hrequest, hsame, hlt, hbody⟩ := h
    refine ⟨hstored.grown hgrown, hrequest, hsame, Nat.lt_of_lt_of_le hlt hgrown.nextSerial_le, ?_⟩
    rw [hgrown.puts_eq _ _ hlt]
    exact hbody
  | _ => trivial

theorem validationsAfter_subset (s : System) (action : Action) (task : Task) :
    s.validations ⊆ validationsAfter makeCacheKey s action task := by
  unfold validationsAfter
  split
  · exact List.subset_cons_self _ _
  · exact List.Subset.refl _

/-- A step adds to puts and validations only. -/
theorem step_grown (h : InSync s.store) (hsound : SoundCalls json makeCacheKey s action)
    (hstep : step poco json makeCacheKey s action = some s') : Grown s s' := by
  have hmoved := step_moved h hsound hstep
  obtain ⟨task, store, -, -, rfl⟩ := step_some hstep
  exact ⟨hmoved.nextSerial_le, fun key serial hlt => putsAfter_of_lt hlt,
    validationsAfter_subset s action task⟩

/-! ## The entries -/

/-- Nothing was stored under the key since the stored response was found, if the metadata are
going to be written. -/
def WritesBack (makeCacheKey : HttpMethod → String → String) (s : System) (action : Action) :
    Prop :=
  match action.event, (s.tasks action.task).stage with
  | .proceed, .rewriting found _ _ serial =>
    ∀ info ∈ s.store.cache.entry (keyOf makeCacheKey found.response.request),
      isWritable info = true → info.serial = found.serial ∧ serial = found.serial
  | _, _ => True

/-- The condition under which a revalidation is not overtaken by a store. -/
def NotOvertaken (json : PocoJson) (makeCacheKey : HttpMethod → String → String) (s : System)
    (action : Action) : Prop :=
  SoundCalls json makeCacheKey s action ∧ WritesBack makeCacheKey s action

/-- The rows belong to their puts after each step that is not overtaken. -/
theorem entries_step (h : Inv poco json makeCacheKey s)
    (hmeets : NotOvertaken json makeCacheKey s action)
    (hstep : step poco json makeCacheKey s action = some s') : EntriesBelong poco json s' := by
  have hmoved := step_moved h.inSync hmeets.1 hstep
  have hgrown := step_grown h.inSync hmeets.1 hstep
  have hputs : s'.puts = putsAfter json makeCacheKey s action := by
    obtain ⟨_, _, -, -, rfl⟩ := step_some hstep
    rfl
  intro key info' hentry'
  by_cases hlt : info'.serial < s.store.cache.nextSerial
  -- the entry is from before this step, with its row, or with the row rewritten
  · obtain ⟨info, hentry, ⟨hserial, -⟩, hfile, hrows⟩ := hmoved.left key info' hentry' hlt
    obtain ⟨hbody, row, hrow, hbelongs⟩ := h.entries key info hentry
    rw [hserial] at hbody hbelongs
    refine ⟨by rw [hfile, hbody, hgrown.puts_eq key _ hlt], ?_⟩
    -- an entry has a row
    have hsome : (s'.store.cache.disk.row key).isSome := by
      rw [← hmoved.inSync.coherent key, hentry']
      rfl
    obtain ⟨row', hrow'⟩ := Option.isSome_iff_exists.mp hsome
    refine ⟨row', hrow', RowOf.grown ?_ hgrown hlt⟩
    rcases hrows row' hrow' with ⟨old, hold, hlike⟩ |
      ⟨hevent, found, networkResponse, httpCacheMetadata, serial, hstage, rfl, hwritable, rfl⟩
    · rw [hrow] at hold
      cases hold
      exact hbelongs.accessed hlike
    · -- the metadata that are written were read from the row of this very entry
      have hok := h.stages action.task
      rw [hstage] at hok
      obtain ⟨hread, hconfirmed, hupdated⟩ := hok
      have hback : ∀ info ∈ s.store.cache.entry (keyOf makeCacheKey found.response.request),
          isWritable info = true → info.serial = found.serial ∧ serial = found.serial := by
        have hback := hmeets.2
        unfold WritesBack at hback
        rw [hevent, hstage] at hback
        exact hback
      obtain ⟨hfound, hreread⟩ := hback info hentry hwritable
      rw [hserial] at hfound
      obtain ⟨row₀, hrow₀, hread₀⟩ := hread.row
      obtain ⟨row₁, metadata, combinedHeaders, hrow₁, hmetadata, hcombined, rfl⟩ := hupdated.row
      rw [← hread.request_eq] at hrow₀ hread₀ hrow₁ hmetadata
      rw [hreread] at hrow₁
      rw [← hfound] at hrow₀ hrow₁
      exact Belongs.revalidated action.nowAtEpoch hrow₀ hrow₁ hconfirmed.mem rfl hfound.symm hread₀
        hconfirmed.valid hmetadata hcombined
  -- the entry was put in this step
  · obtain ⟨receivedAt, row, content, -, hput, hstored⟩ :=
      hmoved.made key info' hentry' (Nat.le_of_not_lt hlt)
    rw [← hputs] at hput
    refine ⟨?_, row, congrArg Prod.fst hstored, ?_⟩
    · rw [hput]
      exact congrArg Prod.snd hstored
    · exact Belongs.stored (by rw [hput])

/-! ## The calls -/

/-- The metadata that are read are those of a row that belongs to the entry. -/
theorem answer_metadata (h : Inv poco json makeCacheKey s) {httpCacheMetadata : HttpCacheMetadata}
    (hanswer : answer (getMetadata json key) s action = .ok (some httpCacheMetadata)) :
    listedSerial s key < s.store.cache.nextSerial ∧
      ∃ row, RowOf poco json s key (listedSerial s key) row ∧
        row.getMetadata json key = .ok httpCacheMetadata := by
  obtain ⟨info, row, hentry, -, hserial, hrow, hread⟩ := answer_listed h.inSync hanswer
  obtain ⟨-, row', hrow', hbelongs⟩ := h.entries key info hentry
  rw [hrow] at hrow'
  cases hrow'
  rw [hserial]
  exact ⟨h.inSync.serial_lt key info hentry, row, hbelongs, hread⟩

/-- What a strategy leaves is made of the metadata that it was given. -/
theorem stage_afterLookup {metadata : Option HttpCacheMetadata} {nowAtEpoch : Int64}
    {headers : HeaderStore} (hserial : metadata ≠ none → serial < s.store.cache.nextSerial)
    (hmetadata : ∀ m, metadata = some m →
      ∃ row, RowOf poco json s (keyOf makeCacheKey request) serial row ∧
        row.getMetadata json (keyOf makeCacheKey request) = .ok m) :
    StageOk poco json makeCacheKey s request
      (afterLookup poco request metadata nowAtEpoch headers serial) := by
  have hread : ∀ m stored, metadata = some m →
      createResponseFromCacheMetadata poco request m = .ok stored →
        serial < s.store.cache.nextSerial ∧
          ∃ row, RowOf poco json s (keyOf makeCacheKey request) serial row ∧
            readResponse poco json (keyOf makeCacheKey request) request row = .ok stored := by
    intro m stored hm hcreate
    obtain ⟨row, hrow, hread⟩ := hmetadata m hm
    refine ⟨hserial (by rw [hm]; exact Option.some_ne_none m), row, hrow, ?_⟩
    unfold readResponse
    rw [hread]
    exact hcreate
  rcases afterLookup_cases poco request metadata nowAtEpoch headers serial with hfinished |
    ⟨f, hopening, rfl, hrequest, m, stored, hm, hcreate, hsame⟩ |
    ⟨networkRequest, found, hsending, hfound⟩
  · rw [hfinished]
    trivial
  · rw [hopening]
    obtain ⟨hlt, row, hrow, hrowRead⟩ := hread m stored hm hcreate
    exact ⟨hrequest, hlt, row, stored, hrow, hrowRead, hsame⟩
  · rw [hsending]
    intro f hf
    obtain ⟨rfl, hrequest, m, hm, hcreate⟩ := hfound f hf
    obtain ⟨hlt, row, hrow, hrowRead⟩ := hread m _ hm hcreate
    exact ⟨hrequest, hlt, row, hrow, hrowRead⟩

/-- What the cache answers belongs to a put. -/
theorem stage_checkCache (h : Inv poco json makeCacheKey s) (headers : HeaderStore) :
    StageOk poco json makeCacheKey s request
      (checkCache poco json makeCacheKey s action request headers) := by
  unfold checkCache
  dsimp only
  split
  · exact fun _ hf => nomatch hf
  split
  · exact stage_afterLookup (fun hne => absurd rfl hne) fun _ hm => nomatch hm
  cases hanswer : answer (getMetadata json (keyOf makeCacheKey request)) s action with
  | error e => trivial
  | ok metadata =>
    cases metadata with
    | none => exact stage_afterLookup (fun hne => absurd rfl hne) fun _ hm => nomatch hm
    | some m =>
      obtain ⟨hlt, hrow⟩ := answer_metadata h hanswer
      refine stage_afterLookup (fun _ => hlt) fun m' hm => ?_
      cases hm
      exact hrow

/-- The body that is opened is the one that was put for the entry. -/
theorem answer_stream (h : Inv poco json makeCacheKey s) {stream : CacheStream}
    (hanswer : answer (getData key) s action = .ok (some stream)) :
    stream.serial < s.store.cache.nextSerial ∧
      (s.puts key stream.serial).body = some stream.content := by
  obtain ⟨info, hentry, -, hserial, hfile⟩ := answer_opened h.inSync hanswer
  obtain ⟨hbody, -⟩ := h.entries key info hentry
  rw [hserial]
  exact ⟨h.inSync.serial_lt key info hentry, hbody.symm.trans hfile⟩

/-- A task that goes on is right after its step. -/
theorem stage_proceeds (h : Inv poco json makeCacheKey s) {task : Task} {stage : Stage}
    (hok : StageOk poco json makeCacheKey s task.request task.stage)
    (hproceeds : Proceeds json makeCacheKey s action task stage) :
    StageOk poco json makeCacheKey s task.request stage := by
  cases hproceeds with
  | finished => trivial
  | skipped hstage =>
    rw [hstage] at hok
    exact hok.1.isStored
  | @reread found networkResponse combinedHeaders metadata hstage hanswer =>
    rw [hstage] at hok
    obtain ⟨hread, hconfirmed, hcombined⟩ := hok
    obtain ⟨hlt, row, hrow, hmetadata⟩ := answer_metadata h hanswer
    rw [hread.request_eq] at hlt hrow hmetadata ⊢
    exact ⟨hread, hconfirmed, hlt, row, metadata, combinedHeaders, hrow, hmetadata, hcombined, rfl⟩
  | rewritten hstage =>
    rw [hstage] at hok
    exact hok.1.isStored
  | @opened found networkResponse stream response hstage hanswer hrequest hsame =>
    rw [hstage] at hok
    have hstored : IsStored poco json makeCacheKey s task.request found := hok
    obtain ⟨hlt, hbody⟩ := answer_stream h hanswer
    rw [hstored.request_eq] at hbody
    exact ⟨hstored, hrequest, hsame, hlt, hbody⟩

/-- A task that got an answer is right after its step. -/
theorem stage_resumes (h : Inv poco json makeCacheKey s) (hgrown : Grown s s') {task : Task}
    (hresumes : Resumes poco json makeCacheKey s action task)
    (hvalidations : s'.validations = validationsAfter makeCacheKey s action task) :
    StageOk poco json makeCacheKey s' task.request task.stage := by
  have hok := h.stages action.task
  cases hresumes with
  | begun hevent => exact (stage_checkCache h _).grown hgrown
  | @sent networkRequest found hstage =>
    rw [hstage] at hok
    have hreceiving : StageOk poco json makeCacheKey s (s.tasks action.task).request
      (.receiving networkRequest found s.clock) := hok
    exact hreceiving.grown hgrown
  | @received answer headers networkRequest networkResponse found sentAt hevent hstage hanswer =>
    rw [hstage] at hok
    rcases afterReceive_cases poco networkResponse found sentAt s.clock headers with
      ⟨f, combinedHeaders, hafter, hf, hvalid, hcombined⟩ | hafter | hafter | hafter
    · -- the answer has just been recorded
      unfold validationsAfter at hvalidations
      rw [hevent, hafter] at hvalidations
      rw [hafter]
      refine ⟨(hok f hf).grown hgrown, ⟨hvalid, ?_⟩, hcombined⟩
      rw [hvalidations]
      exact List.mem_cons_self
    · rw [hafter]
      trivial
    · rw [hafter]
      trivial
    · rw [hafter]
      trivial
  | proceeded hevent hproceeds => exact (stage_proceeds h hok hproceeds).grown hgrown
  | ended => trivial
  | same => exact hok.grown hgrown

/-! ## Runs -/

/-- Each step keeps the invariant. -/
theorem step_inv (s : System) (action : Action) (s' : System) (h : Inv poco json makeCacheKey s)
    (hmeets : NotOvertaken json makeCacheKey s action)
    (hstep : step poco json makeCacheKey s action = some s') : Inv poco json makeCacheKey s' := by
  have hgrown := step_grown h.inSync hmeets.1 hstep
  refine ⟨(step_moved h.inSync hmeets.1 hstep).inSync, entries_step h hmeets hstep, fun i => ?_⟩
  obtain ⟨task, store, hresume, -, rfl⟩ := step_some hstep
  by_cases hi : i = action.task
  · subst hi
    show StageOk poco json makeCacheKey _
      (Function.update s.tasks action.task task action.task).request
      (Function.update s.tasks action.task task action.task).stage
    rw [Function.update_self]
    exact stage_resumes h hgrown (resumes hresume) rfl
  · show StageOk poco json makeCacheKey _ (Function.update s.tasks action.task task i).request
      (Function.update s.tasks action.task task i).stage
    rw [Function.update_of_ne hi]
    exact (h.stages i).grown hgrown

section
variable {cacheRootDir : String} {maxSize : UInt64} {disk : Disk} {actions : List Action}

/-- At the start, what is found on the disk is taken to have been put together. -/
theorem inv_init (hdir : cacheRootDir ≠ "") (hfaults : disk.faults = {})
    (hfits : RowsFit maxSize disk.rows) :
    Inv poco json makeCacheKey (System.init cacheRootDir maxSize disk) := by
  have hsync : InSync (initialized cacheRootDir maxSize disk) :=
    synced_initialized hdir hfaults hfits
  refine ⟨hsync, fun key info hentry => ⟨rfl, ?_⟩, fun i => trivial⟩
  have hsome : ((initialized cacheRootDir maxSize disk).cache.disk.row key).isSome := by
    have hentry : (initialized cacheRootDir maxSize disk).cache.entry key = some info := hentry
    rw [← hsync.coherent key, hentry]
    rfl
  obtain ⟨row, hrow⟩ := Option.isSome_iff_exists.mp hsome
  exact ⟨row, hrow, Belongs.stored hrow⟩

/-- In every run from an initialized cache in which no revalidation is overtaken by a store, and
which stores plain texts, each row belongs to what was put with its body or to a revalidation of
that body; and the statements that were written give these rows. -/
theorem entries_belong {Conf : Type} {conf : Db.Poco Conf} {closesAtEnd : Bool}
    (hconf : Db.ContentValues.Documented conf closesAtEnd)
    (hdir : cacheRootDir ≠ "") (hfaults : disk.faults = {}) (hfits : RowsFit maxSize disk.rows)
    (hrun : Runs.run (step poco json makeCacheKey) (System.init cacheRootDir maxSize disk) actions =
      some s)
    (hplain : Runs.EveryStep (step poco json makeCacheKey)
      (PlainWrites json makeCacheKey closesAtEnd) (System.init cacheRootDir maxSize disk) actions)
    (hmeets : Runs.EveryStep (step poco json makeCacheKey) (NotOvertaken json makeCacheKey)
      (System.init cacheRootDir maxSize disk) actions) :
    EntriesBelong poco json s ∧ Runs.EveryStep (step poco json makeCacheKey)
      (GivesRows json makeCacheKey conf) (System.init cacheRootDir maxSize disk) actions :=
  ⟨(Runs.run_invariant step_inv (inv_init hdir hfaults hfits) hrun hmeets).entries,
    givesRows_of_plainWrites hconf hplain⟩

/-! ### A response from the cache is one response -/

/-- The body that is opened is that of the entry from which the stored response was read. -/
def OpensFound (makeCacheKey : HttpMethod → String → String) (s : System) (action : Action) :
    Prop :=
  match action.event, (s.tasks action.task).stage with
  | .proceed, .opening found _ =>
    ∀ info ∈ s.store.cache.entry (keyOf makeCacheKey found.response.request),
      info.reservedRemove = false → info.serial = found.serial
  | _, _ => True

/-- The condition under which the stored response is not exchanged before its body is opened. -/
def NotExchanged (json : PocoJson) (makeCacheKey : HttpMethod → String → String) (s : System)
    (action : Action) : Prop :=
  NotOvertaken json makeCacheKey s action ∧ OpensFound makeCacheKey s action

/-- The status and the content length of what the users have from the cache, and the bytes that
they read, come from one `put`. -/
def ServesOneResponse (poco : Poco) (json : PocoJson)
    (makeCacheKey : HttpMethod → String → String) (s : System) : Prop :=
  ∀ i response found stream, (s.tasks i).stage = .served response found stream →
    let key := keyOf makeCacheKey response.request
    (s.puts key stream.serial).body = some stream.content ∧
      ∃ row stored, (s.puts key stream.serial).row = some row ∧
        readResponse poco json key response.request row = .ok stored ∧ SameEntity stored response

/-- The body is that of the entry that was read. -/
def OpenedFound (s : System) : Prop :=
  ∀ i response found stream, (s.tasks i).stage = .served response found stream →
    stream.serial = found.serial

/-- A stream is opened on what was found, as long as nothing is exchanged. -/
theorem openedFound_step (h : Inv poco json makeCacheKey s) (hopened : OpenedFound s)
    (hmeets : NotExchanged json makeCacheKey s action)
    (hstep : step poco json makeCacheKey s action = some s') : OpenedFound s' := by
  obtain ⟨task, store, hresume, -, rfl⟩ := step_some hstep
  intro i response found stream hserved
  replace hserved : (Function.update s.tasks action.task task i).stage =
    .served response found stream := hserved
  by_cases hi : i = action.task
  · subst hi
    rw [Function.update_self] at hserved
    rcases (resumes hresume).served hserved with
      rfl | ⟨hevent, -, -, networkResponse, hstage, hanswer⟩
    · exact hopened _ _ _ _ hserved
    · obtain ⟨info, hentry, hreserved, hserial, -⟩ := answer_opened h.inSync hanswer
      have hopens := hmeets.2
      unfold OpensFound at hopens
      rw [hevent, hstage] at hopens
      exact hserial.trans (hopens info hentry hreserved)
  · rw [Function.update_of_ne hi] at hserved
    exact hopened _ _ _ _ hserved

theorem Inv.servesOneResponse (hlaw : ∀ o, json.parse (json.stringify o) = some o)
    (h : Inv poco json makeCacheKey s) (hopened : OpenedFound s) :
    ServesOneResponse poco json makeCacheKey s := by
  intro i response found stream hserved
  have hok := h.stages i
  rw [hserved] at hok
  obtain ⟨hstored, hrequest, hsame, -, hbody⟩ := hok
  obtain ⟨row, stored, hrow, hread, hentity⟩ := hstored.row
  obtain ⟨first, stored', hput, hfirst, hentity'⟩ := hrow.sameEntity hlaw hread
  dsimp only
  rw [hrequest]
  refine ⟨hbody, first, stored', ?_, hfirst, (hentity'.trans hentity).trans hsame⟩
  rw [hopened i response found stream hserved]
  exact hput

/-- The `ETag` and the `Last-Modified` in the row of an entry were put with its body, or came with
an answer that confirmed the entry. -/
def ValidatorsFrom (confirms : Response → Response → Prop) (json : PocoJson) (s : System) : Prop :=
  ∀ key info row o item, s.store.cache.entry key = some info →
    s.store.cache.disk.row key = some row → json.parse row.responseHeaderJson = some o →
      item ∈ o.entries → (icompare item.1 HttpConstants.HeaderNames.ETag ||
        icompare item.1 HttpConstants.HeaderNames.LastModified) = true →
        WasPut json (s.puts key info.serial) item ∨
          CameWith confirms s.validations key info.serial item

/-- An answer confirms an entry that says that nothing was modified, or that is older than the
stored response. The statements of the run give the rows that the validators are read from. -/
theorem validators_confirmed {Conf : Type} {conf : Db.Poco Conf} {closesAtEnd : Bool}
    (hconf : Db.ContentValues.Documented conf closesAtEnd)
    (hlaw : ∀ o, json.parse (json.stringify o) = some o)
    (hdir : cacheRootDir ≠ "") (hfaults : disk.faults = {}) (hfits : RowsFit maxSize disk.rows)
    (hrun : Runs.run (step poco json makeCacheKey) (System.init cacheRootDir maxSize disk) actions =
      some s)
    (hplain : Runs.EveryStep (step poco json makeCacheKey)
      (PlainWrites json makeCacheKey closesAtEnd) (System.init cacheRootDir maxSize disk) actions)
    (hmeets : Runs.EveryStep (step poco json makeCacheKey) (NotOvertaken json makeCacheKey)
      (System.init cacheRootDir maxSize disk) actions) :
    ValidatorsFrom (Confirms poco) json s ∧ Runs.EveryStep (step poco json makeCacheKey)
      (GivesRows json makeCacheKey conf) (System.init cacheRootDir maxSize disk) actions := by
  refine ⟨?_, givesRows_of_plainWrites hconf hplain⟩
  have hinv := Runs.run_invariant step_inv (inv_init hdir hfaults hfits) hrun hmeets
  intro key info row o item hentry hrow hparse hitem _
  obtain ⟨-, row', hrow', hbelongs⟩ := hinv.entries key info hentry
  rw [hrow] at hrow'
  cases hrow'
  exact hbelongs.item_source hlaw hparse hitem

end

/-! ## Runs of two calls -/

section
open HttpConstants

/-- A key for the one URL of the runs below. -/
def plainKey (method : HttpMethod) (_url : String) : String :=
  match method with
  | .get => "get"
  | _ => "other"

/-- A request of a user. -/
def getRequest : Request := ⟨.get, "http://host/", none, 0, {}, none⟩

/-- Its header list is empty. -/
def plainHeaderStore : HeaderStore := ⟨[Headers.empty]⟩

/-- An answer of a server. -/
def plainAnswer (status : ℤ) (headers : List (String × String)) : NetworkAnswer :=
  ⟨status, "", headers, true, 3, 0, 0⟩

/-- The actions of one task. -/
def ofTask (task : ℕ) (events : List Event) : List Action :=
  events.map fun event => { task := task, event := event }

/-- A `GET` that is answered with the given status and headers. -/
def asks (status : ℤ) (headers : List (String × String)) : List Event :=
  [.begin getRequest plainHeaderStore, .send,
    .receive (.ok (plainAnswer status headers)) plainHeaderStore]

/-- A response is received, and stored. -/
def stores (etag length content : String) (size : UInt64) : List Event :=
  asks 200 [(HeaderNames.ContentLength, length), (HeaderNames.ETag, etag)] ++
    [.close content size "/temp/1"]

/-- An entry is stored and then confirmed. -/
def revalidatedRun : List Action :=
  ofTask 0 (stores "v1" "3" "abc" 3) ++ ofTask 1 (asks 304 [(HeaderNames.ETag, "v1")] ++
    [.proceed, .proceed, .proceed])

/-- Between the two calls of `updateCache`, another entry is stored. -/
def overtakenRun : List Action :=
  ofTask 0 (stores "v1" "3" "abc" 3) ++
    ofTask 1 (asks 304 [(HeaderNames.ETag, "v1")] ++ [.proceed]) ++
      ofTask 2 (stores "v2" "5" "defgh" 5) ++ ofTask 1 [.proceed]

/-- Between `updateCache` and `getData`, another entry is stored. -/
def exchangedRun : List Action :=
  ofTask 0 (stores "v1" "3" "abc" 3) ++
    ofTask 1 (asks 304 [(HeaderNames.ETag, "v1")] ++ [.proceed, .proceed]) ++
      ofTask 2 (stores "v2" "5" "defgh" 5) ++ ofTask 1 [.proceed]

instance : Decidable (WritesBack makeCacheKey s action) := by
  unfold WritesBack
  split <;> infer_instance

instance : Decidable (NotOvertaken json makeCacheKey s action) :=
  inferInstanceAs (Decidable (_ ∧ _))

instance : Decidable (OpensFound makeCacheKey s action) := by
  unfold OpensFound
  split <;> infer_instance

instance : Decidable (NotExchanged json makeCacheKey s action) :=
  inferInstanceAs (Decidable (_ ∧ _))

theorem entries_belong_revalidated : ∃ s ∈ Runs.run (step Poco.plain plainJson plainKey)
    (System.init "/cache" 100 emptyDisk) revalidatedRun,
      s.validations.length = 1 ∧ (s.store.cache.entry "get").isSome ∧
        EntriesBelong Poco.plain plainJson s ∧ Runs.EveryStep (step Poco.plain plainJson plainKey)
          (GivesRows plainJson plainKey Db.ContentValues.mapConfiguration)
          (System.init "/cache" 100 emptyDisk) revalidatedRun := by
  have hran : ∃ s ∈ Runs.run (step Poco.plain plainJson plainKey)
      (System.init "/cache" 100 emptyDisk) revalidatedRun,
        s.validations.length = 1 ∧ (s.store.cache.entry "get").isSome := by decide +kernel
  obtain ⟨s, hrun, hlength, hsome⟩ := hran
  exact ⟨s, hrun, hlength, hsome,
    entries_belong Db.ContentValues.documented_mapConfiguration (by decide) rfl (by decide +kernel)
      hrun (by decide +kernel) (by decide +kernel)⟩

/-- The body is the second one, and the size in the row is that of the first. -/
theorem not_entriesBelong_overtaken : ∃ s ∈ Runs.run (step Poco.plain plainJson plainKey)
    (System.init "/cache" 100 emptyDisk) overtakenRun, ¬EntriesBelong Poco.plain plainJson s := by
  have hran : ∃ s ∈ Runs.run (step Poco.plain plainJson plainKey)
      (System.init "/cache" 100 emptyDisk) overtakenRun,
        (s.store.cache.entry "get").map (·.serial) = some 1 ∧
        (s.store.cache.disk.row "get").map (·.responseBodySize) = some 3 ∧
        (s.puts "get" 1).row.map (·.responseBodySize) = some 5 := by decide +kernel
  obtain ⟨s, hrun, hentry, hrow, hput⟩ := hran
  refine ⟨s, hrun, fun h => ?_⟩
  obtain ⟨info, hlisted, hserial⟩ := Option.map_eq_some_iff.mp hentry
  obtain ⟨-, row, hstored, hbelongs⟩ := h "get" info hlisted
  rw [hserial] at hbelongs
  obtain ⟨first, hfirst, -, -, hsize⟩ := Belongs.same hbelongs
  rw [hstored] at hrow
  rw [hfirst] at hput
  have hrow : row.responseBodySize = 3 := Option.some.inj hrow
  have hput : first.responseBodySize = 5 := Option.some.inj hput
  rw [hrow, hput] at hsize
  exact absurd hsize (by decide)

/-- The response and the stream that a user has. -/
def servedOf : Stage → Option (Response × CacheStream)
  | .served response _ stream => some (response, stream)
  | _ => none

/-- What is served is served at its stage. -/
theorem stage_of_servedOf {stage : Stage} {response : Response} {stream : CacheStream}
    (h : servedOf stage = some (response, stream)) :
    ∃ found, stage = .served response found stream := by
  unfold servedOf at h
  split at h
  · cases h
    exact ⟨_, rfl⟩
  · cases h

/-- `Poco` for the two dates of the runs below. -/
def datedPoco : Poco :=
  { Poco.plain with
    tryParseDateTime := fun _ value =>
      if value = "Thu, 01 Jan 1970 00:00:01 GMT" then some ⟨1000000⟩
      else if value = "Thu, 01 Jan 1970 00:00:02 GMT" then some ⟨2000000⟩
      else none }

/-- An entry is stored, and the answer that is asked for it has another body and an older date. -/
def olderRun : List Action :=
  ofTask 0 (asks 200 [(HeaderNames.ETag, "v2"),
      (HeaderNames.LastModified, "Thu, 01 Jan 1970 00:00:02 GMT")] ++
        [.close "abc" 3 "/temp/1"]) ++
    ofTask 1 (asks 200 [(HeaderNames.ETag, "v1"),
      (HeaderNames.LastModified, "Thu, 01 Jan 1970 00:00:01 GMT")] ++
        [.proceed, .proceed, .proceed])

theorem validators_confirmed_older : ∃ s ∈ Runs.run (step datedPoco plainJson plainKey)
    (System.init "/cache" 100 emptyDisk) olderRun,
      s.validations.length = 1 ∧ (s.store.cache.entry "get").isSome ∧
        ValidatorsFrom (Confirms datedPoco) plainJson s ∧
        Runs.EveryStep (step datedPoco plainJson plainKey)
          (GivesRows plainJson plainKey Db.ContentValues.mapConfiguration)
          (System.init "/cache" 100 emptyDisk) olderRun := by
  have hran : ∃ s ∈ Runs.run (step datedPoco plainJson plainKey)
      (System.init "/cache" 100 emptyDisk) olderRun,
        s.validations.length = 1 ∧ (s.store.cache.entry "get").isSome := by decide +kernel
  obtain ⟨s, hrun, hlength, hsome⟩ := hran
  exact ⟨s, hrun, hlength, hsome, validators_confirmed
    Db.ContentValues.documented_mapConfiguration HttpUtil.jsonParse_jsonStringify (by decide)
    rfl (by decide +kernel) hrun (by decide +kernel) (by decide +kernel)⟩

/-- The entry has got the `ETag` of the answer that is older, which is no 304. -/
theorem not_validatorsFrom_older : ∃ s ∈ Runs.run (step datedPoco plainJson plainKey)
    (System.init "/cache" 100 emptyDisk) olderRun,
      ¬ValidatorsFrom (fun _ networkResponse => networkResponse.statusCode = 304) plainJson s := by
  have hran : ∃ s ∈ Runs.run (step datedPoco plainJson plainKey)
      (System.init "/cache" 100 emptyDisk) olderRun,
        (s.store.cache.entry "get").map (·.serial) = some 0 ∧
        (∃ row ∈ s.store.cache.disk.row "get", ∃ o ∈ plainJson.parse row.responseHeaderJson,
          (HeaderNames.ETag, "v1") ∈ o.entries) ∧
        (∀ row ∈ (s.puts "get" 0).row, ∀ o ∈ plainJson.parse row.responseHeaderJson,
          (HeaderNames.ETag, "v1") ∉ o.entries) ∧
        ∀ validation ∈ s.validations, validation.networkResponse.statusCode = 200 := by
    decide +kernel
  obtain ⟨s, hrun, hentry, ⟨row, hrow, o, hparse, hitem⟩, hput, hstatus⟩ := hran
  refine ⟨s, hrun, fun h => ?_⟩
  obtain ⟨info, hlisted, hserial⟩ := Option.map_eq_some_iff.mp hentry
  rw [← hserial] at hput
  rcases h "get" info row o _ hlisted hrow hparse hitem (by decide) with
    ⟨first, o₀, hfirst, hparse₀, hitem₀⟩ | ⟨validation, hmem, -, -, hcode, -⟩
  · exact hput first hfirst o₀ hparse₀ hitem₀
  · rw [hstatus validation hmem] at hcode
    exact absurd hcode (by decide)

end

end EasyHttp.SharedCache
