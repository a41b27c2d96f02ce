import EasyHttp.Engine.Revalidation

/-!
# Removed entries and bodies that are still read

A successful `POST`, `PUT`, `PATCH` or `DELETE` removes the entry of its URL. A body that was
received before that may be closed after it, and is stored then.

* `Survives`: after an invalidation, no call that begins later is served with what was received
  before the invalidating request was sent;
* `StoresNewer`: the condition on the close of a body that is stored;
* `invalidation_survives`: along runs of such steps, invalidations survive;
* `invalidation_undone`: a body that is closed after the invalidation comes back.
-/

namespace EasyHttp.SharedCache

open Exec HttpFileCache CacheReaders HttpCacheStrategy HttpEngine StoreCoherence StoredBodies

/-! ## What is to hold -/

/-- What was put for the entry was not received before an invalidating request was sent whose
removal was over when the call began. -/
def Newer (makeCacheKey : HttpMethod → String → String) (s : System) (request : Request)
    (begunAt serial : ℕ) : Prop :=
  ∀ removal ∈ s.removals, makeCacheKey .get removal.url = keyOf makeCacheKey request →
    removal.removedAt < begunAt →
      removal.sentAt ≤ (s.puts (keyOf makeCacheKey request) serial).receivedAt

/-- Neither the stored response nor the body that a user has from the cache is older than an
invalidation of the URL that was over when the call began. -/
def Survives (makeCacheKey : HttpMethod → String → String) (s : System) : Prop :=
  ∀ i response found stream, (s.tasks i).stage = .served response found stream →
    ∀ removal ∈ s.removals, removal.url = (s.tasks i).request.url →
      removal.removedAt < (s.tasks i).begunAt →
        let key := keyOf makeCacheKey (s.tasks i).request
        removal.sentAt ≤ (s.puts key found.serial).receivedAt ∧
          removal.sentAt ≤ (s.puts key stream.serial).receivedAt

/-- A body that is stored was received after every invalidating request was sent that has removed
an entry of its key. -/
def StoresNewer (makeCacheKey : HttpMethod → String → String) (s : System) (action : Action) :
    Prop :=
  match action.event, (s.tasks action.task).stage with
  | .close _ _ _, .storing networkResponse receivedAt =>
    ∀ removal ∈ s.removals,
      makeCacheKey .get removal.url = keyOf makeCacheKey networkResponse.request →
        removal.sentAt ≤ receivedAt
  | _, _ => True

/-- Nothing older than a removal is stored, and nothing is overtaken. -/
def NotResurrected (json : PocoJson) (makeCacheKey : HttpMethod → String → String) (s : System)
    (action : Action) : Prop :=
  SoundCalls json makeCacheKey s action ∧ StoresNewer makeCacheKey s action

/-! ## The invariant -/

section
variable (makeCacheKey : HttpMethod → String → String) (s : System)

/-- Every entry that can be found was received after the invalidations of its key. -/
def EntriesNewer : Prop :=
  ∀ key info, s.store.cache.entry key = some info → info.reservedRemove = false →
    ∀ removal ∈ s.removals, makeCacheKey .get removal.url = key →
      removal.sentAt ≤ (s.puts key info.serial).receivedAt

/-- What a call has in hand. -/
structure TaskNewer (task : Task) : Prop where
  begunAt_lt : task.begunAt < s.clock
  found : ∀ f, foundOf task.stage = some f → task.request.method = .get ∧
    f.response.request = task.request ∧ f.serial < s.store.cache.nextSerial ∧
      Newer makeCacheKey s task.request task.begunAt f.serial
  served : ∀ response f stream, task.stage = .served response f stream →
    stream.serial < s.store.cache.nextSerial ∧
      Newer makeCacheKey s task.request task.begunAt stream.serial

/-- The rows, and what tasks are about to store, are newer than the removals. -/
structure FreshInv : Prop where
  inSync : InSync s.store
  entries : EntriesNewer makeCacheKey s
  tasks : ∀ i, TaskNewer makeCacheKey s (s.tasks i)

end

variable {poco : Poco} {json : PocoJson} {makeCacheKey : HttpMethod → String → String}
  {s s' : System} {action : Action} {request : Request} {begunAt serial : ℕ} {task : Task}

/-- A removal that is added to the record has taken its entry away. -/
theorem removalsAfter_cases {store : CacheReaders.System} {removal : Removal}
    (hmem : removal ∈ removalsAfter makeCacheKey s action store) :
    removal ∈ s.removals ∨ removal.removedAt = s.clock ∧ action.event = .proceed ∧
      isRemoved store (makeCacheKey .get removal.url) = true := by
  unfold removalsAfter at hmem
  split at hmem
  · rename_i hevent hstage
    split at hmem
    · rename_i hremoved
      rcases List.mem_cons.mp hmem with rfl | hmem
      · exact .inr ⟨rfl, hevent, hremoved⟩
      · exact .inl hmem
    · exact .inl hmem
  · exact .inl hmem

/-- A removal that is added is not over when a call begins that has begun already. -/
theorem Newer.grown (h : Newer makeCacheKey s request begunAt serial)
    (hlt : serial < s.store.cache.nextSerial) (hbegun : begunAt ≤ s.clock) (hgrown : Grown s s')
    {store : CacheReaders.System}
    (hremovals : s'.removals = removalsAfter makeCacheKey s action store) :
    Newer makeCacheKey s' request begunAt serial := by
  intro removal hmem hkey hover
  rw [hremovals] at hmem
  rw [hgrown.puts_eq _ _ hlt]
  rcases removalsAfter_cases hmem with hold | ⟨hnow, -, -⟩
  · exact h removal hold hkey hover
  · omega

/-- What is listed and not reserved for removal is newer than all invalidations so far. -/
theorem FreshInv.newer (h : FreshInv makeCacheKey s) {info : HttpCacheInfo}
    (hentry : s.store.cache.entry (keyOf makeCacheKey request) = some info)
    (hreserved : info.reservedRemove = false) (begunAt : ℕ) :
    Newer makeCacheKey s request begunAt info.serial :=
  fun removal hmem hkey _ => h.entries _ info hentry hreserved removal hmem hkey

/-- The rows are newer than the removals after each step. -/
theorem entriesNewer_step (h : FreshInv makeCacheKey s)
    (hmeets : NotResurrected json makeCacheKey s action)
    (hstep : step poco json makeCacheKey s action = some s') : EntriesNewer makeCacheKey s' := by
  have hmoved := step_moved h.inSync hmeets.1 hstep
  have hgrown := step_grown h.inSync hmeets.1 hstep
  obtain ⟨task, store, -, -, rfl⟩ := step_some hstep
  intro key info' hentry' hreserved' removal hmem hkey
  by_cases hlt : info'.serial < s.store.cache.nextSerial
  -- the entry is from before this step
  · obtain ⟨info, hentry, hsame, -⟩ := hmoved.left key info' hentry' hlt
    have hreserved : info.reservedRemove = false := by
      rw [Bool.eq_false_iff]
      intro htrue
      rw [hsame.2 htrue] at hreserved'
      cases hreserved'
    rw [hgrown.puts_eq key _ hlt, ← hsame.1]
    rcases removalsAfter_cases hmem with hold | ⟨-, -, hremoved⟩
    · exact h.entries key info hentry hreserved removal hold hkey
    · -- the entry of the key has just been removed, or reserved for it
      unfold isRemoved at hremoved
      rw [hkey, show store.cache.entry key = some info' from hentry'] at hremoved
      rw [show info'.reservedRemove = true from hremoved] at hreserved'
      cases hreserved'
  -- the entry was put in this step, newer than all removals by the condition
  · obtain ⟨receivedAt, row, content, hcloses, hput, -⟩ :=
      hmoved.made key info' hentry' (Nat.le_of_not_lt hlt)
    obtain ⟨_, _, _, networkResponse, hevent, hstage, rfl⟩ := hcloses
    have hnewer := hmeets.2
    unfold StoresNewer at hnewer
    rw [hevent, hstage] at hnewer
    show removal.sentAt ≤ (putsAfter json makeCacheKey s action _ info'.serial).receivedAt
    rw [hput]
    rcases removalsAfter_cases hmem with hold | ⟨-, hproceed, -⟩
    · exact hnewer removal hold hkey
    · rw [hevent] at hproceed
      cases hproceed

theorem TaskNewer.grown (h : TaskNewer makeCacheKey s task) (hgrown : Grown s s')
    (hclock : s.clock ≤ s'.clock) {store : CacheReaders.System}
    (hremovals : s'.removals = removalsAfter makeCacheKey s action store) :
    TaskNewer makeCacheKey s' task := by
  have hbegun := h.begunAt_lt
  refine ⟨by omega, fun f hf => ?_, fun response f stream hserved => ?_⟩
  · obtain ⟨hmethod, hrequest, hlt, hnewer⟩ := h.found f hf
    exact ⟨hmethod, hrequest, Nat.lt_of_lt_of_le hlt hgrown.nextSerial_le,
      hnewer.grown hlt (Nat.le_of_lt hbegun) hgrown hremovals⟩
  · obtain ⟨hlt, hnewer⟩ := h.served response f stream hserved
    exact ⟨Nat.lt_of_lt_of_le hlt hgrown.nextSerial_le,
      hnewer.grown hlt (Nat.le_of_lt hbegun) hgrown hremovals⟩

/-- A task that goes on is newer than the removals. -/
theorem taskNewer_resumes (h : FreshInv makeCacheKey s) (hgrown : Grown s s')
    (hclock : s.clock < s'.clock) {store : CacheReaders.System}
    (hremovals : s'.removals = removalsAfter makeCacheKey s action store)
    (hresumes : Resumes poco json makeCacheKey s action task) :
    TaskNewer makeCacheKey s' task := by
  have hbefore := h.tasks action.task
  have hbegun : task.begunAt ≤ s.clock := hresumes.begunAt_le hbefore.begunAt_lt
  -- the entry of the request's key that is listed now
  have hlisted : ∀ {info : HttpCacheInfo}, s.store.cache.entry (keyOf makeCacheKey task.request) =
      some info → info.reservedRemove = false →
        info.serial < s'.store.cache.nextSerial ∧
          Newer makeCacheKey s' task.request task.begunAt info.serial := by
    intro info hentry hreserved
    have hlt : info.serial < s.store.cache.nextSerial := h.inSync.serial_lt _ info hentry
    exact ⟨Nat.lt_of_lt_of_le hlt hgrown.nextSerial_le,
      (h.newer hentry hreserved _).grown hlt hbegun hgrown hremovals⟩
  refine ⟨by omega, fun f hf => ?_, fun response f stream hserved => ?_⟩
  -- what the task has found was found before, or is found in this step
  · rcases hresumes.found hf with ⟨hfound, hrequest, hsame⟩ | ⟨-, headers, hfound⟩
    · rw [hrequest, hsame]
      exact (hbefore.grown hgrown (Nat.le_of_lt hclock) hremovals).found f hfound
    -- the cache has answered with the entry that is listed, so no removal is newer
    · obtain ⟨hserial, hrequest, havailable, m, hanswer⟩ := checkCache_found hfound
      obtain ⟨info, row, hentry, hreserved, hinfo, -⟩ := answer_listed h.inSync hanswer
      have hmethod : task.request.method = .get := by
        unfold isAvailableToCache at havailable
        simp only [Bool.and_eq_true, decide_eq_true_eq] at havailable
        exact havailable.1.1.1.1
      rw [hserial, hinfo]
      exact ⟨hmethod, hrequest, hlisted hentry hreserved⟩
  · rcases hresumes.served hserved with rfl | ⟨-, hrequest, -, networkResponse, hstage, hanswer⟩
    · exact (hbefore.grown hgrown (Nat.le_of_lt hclock) hremovals).served response f stream hserved
    -- the body is opened from the entry that is listed
    · obtain ⟨-, hasked, -⟩ := hbefore.found f (by rw [hstage]; rfl)
      obtain ⟨info, hentry, hreserved, hserial, -⟩ := answer_opened h.inSync hanswer
      rw [hasked, ← hrequest] at hentry
      rw [hserial]
      exact hlisted hentry hreserved

/-! ## Runs -/

/-- Each step keeps the invariant. -/
theorem step_freshInv (s : System) (action : Action) (s' : System) (h : FreshInv makeCacheKey s)
    (hmeets : NotResurrected json makeCacheKey s action)
    (hstep : step poco json makeCacheKey s action = some s') : FreshInv makeCacheKey s' := by
  have hgrown := step_grown h.inSync hmeets.1 hstep
  refine ⟨(step_moved h.inSync hmeets.1 hstep).inSync, entriesNewer_step h hmeets hstep,
    fun i => ?_⟩
  obtain ⟨task, store, hresume, -, rfl⟩ := step_some hstep
  show TaskNewer makeCacheKey _ (Function.update s.tasks action.task task i)
  by_cases hi : i = action.task
  · rw [hi, Function.update_self]
    exact taskNewer_resumes h hgrown (Nat.lt_succ_self _) rfl (resumes hresume)
  · rw [Function.update_of_ne hi]
    exact (h.tasks i).grown hgrown (Nat.le_succ _) rfl

/-- The invariant gives that no removed entry is back. -/
theorem FreshInv.survives (h : FreshInv makeCacheKey s) : Survives makeCacheKey s := by
  intro i response found stream hserved removal hmem hurl hover
  obtain ⟨hmethod, -, -, hnewer⟩ := (h.tasks i).found found (by rw [hserved]; rfl)
  obtain ⟨-, hnewer'⟩ := (h.tasks i).served response found stream hserved
  have hkey : makeCacheKey .get removal.url = keyOf makeCacheKey (s.tasks i).request := by
    unfold keyOf
    rw [hurl, hmethod]
  exact ⟨hnewer removal hmem hkey hover, hnewer' removal hmem hkey hover⟩

/-- In every run from an initialized cache in which no body is stored that is older than a removal
of its entry, no removal is undone. -/
theorem invalidation_survives {cacheRootDir : String} {maxSize : UInt64} {disk : Disk}
    {actions : List Action} (hdir : cacheRootDir ≠ "") (hfaults : disk.faults = {})
    (hfits : RowsFit maxSize disk.rows)
    (hrun : Runs.run (step poco json makeCacheKey) (System.init cacheRootDir maxSize disk) actions =
      some s)
    (hmeets : Runs.EveryStep (step poco json makeCacheKey) (NotResurrected json makeCacheKey)
      (System.init cacheRootDir maxSize disk) actions) : Survives makeCacheKey s := by
  have hstart : FreshInv makeCacheKey (System.init cacheRootDir maxSize disk) := by
    refine ⟨synced_initialized hdir hfaults hfits, fun _ _ _ _ _ hmem => ?_, fun i => ?_⟩
    · exact absurd hmem List.not_mem_nil
    · exact ⟨Nat.zero_lt_one, fun _ hf => (nomatch hf), fun _ _ _ hserved => (nomatch hserved)⟩
  exact (Runs.run_invariant step_freshInv hstart hrun hmeets).survives

/-! ## Two runs -/

/-- The response that a close stores, and when it was received. -/
def storedBy (event : Event) (stage : Stage) : Option (Response × ℕ) :=
  match event, stage with
  | .close _ _ _, .storing networkResponse receivedAt => some (networkResponse, receivedAt)
  | _, _ => none

/-- The condition, response by response. -/
theorem storesNewer_iff : StoresNewer makeCacheKey s action ↔
    ∀ stored ∈ storedBy action.event (s.tasks action.task).stage, ∀ removal ∈ s.removals,
      makeCacheKey .get removal.url = keyOf makeCacheKey stored.1.request →
        removal.sentAt ≤ stored.2 := by
  unfold StoresNewer storedBy
  generalize action.event = event
  generalize (s.tasks action.task).stage = stage
  cases event <;> cases stage <;> simp

instance : Decidable (StoresNewer makeCacheKey s action) :=
  decidable_of_iff _ storesNewer_iff.symm

instance : Decidable (NotResurrected json makeCacheKey s action) :=
  inferInstanceAs (Decidable (_ ∧ _))

/-- A `POST` for the URL of the `GET`s, and the removal of the entry. -/
def posts : List Event :=
  [.begin { getRequest with method := .post } plainHeaderStore, .send,
    .receive (.ok (plainAnswer 200 [])) plainHeaderStore, .proceed]

/-- A `GET` whose stored response is confirmed. -/
def confirmed : List Event :=
  asks 304 [] ++ [.proceed, .proceed, .proceed]

/-- The entry is removed, another is stored, and a later `GET` is answered from it. -/
def invalidatedRun : List Action :=
  ofTask 0 (stores "v1" "3" "abc" 3) ++ ofTask 1 posts ++
    ofTask 2 (stores "v2" "5" "defgh" 5) ++ ofTask 3 confirmed

/-- The body of the second `GET` is received before the `POST` is sent, and closed after it. -/
def resurrectedRun : List Action :=
  ofTask 0 (stores "v1" "3" "abc" 3) ++
    ofTask 2 (asks 200 [(HttpConstants.HeaderNames.ETag, "v2")]) ++ ofTask 1 posts ++
      ofTask 2 [.close "defgh" 5 "/temp/1"] ++ ofTask 3 confirmed

theorem invalidation_survives_stored : ∃ s ∈ Runs.run (step Poco.plain plainJson plainKey)
    (System.init "/cache" 100 emptyDisk) invalidatedRun,
      s.removals.length = 1 ∧
        ((servedOf (s.tasks 3).stage).map fun p => p.2.content) = some "defgh" ∧
          Survives plainKey s := by
  have hran : ∃ s ∈ Runs.run (step Poco.plain plainJson plainKey)
      (System.init "/cache" 100 emptyDisk) invalidatedRun, s.removals.length = 1 ∧
        ((servedOf (s.tasks 3).stage).map fun p => p.2.content) = some "defgh" := by
    decide +kernel
  obtain ⟨s, hrun, hlength, hserved⟩ := hran
  exact ⟨s, hrun, hlength, hserved,
    invalidation_survives (by decide) rfl (by decide +kernel) hrun (by decide +kernel)⟩

/-- The last `GET` begins after the removal, and gets what was received before the `POST`. -/
theorem invalidation_undone : ∃ s ∈ Runs.run (step Poco.plain plainJson plainKey)
    (System.init "/cache" 100 emptyDisk) resurrectedRun, ¬Survives plainKey s := by
  have hran : ∃ s ∈ Runs.run (step Poco.plain plainJson plainKey)
      (System.init "/cache" 100 emptyDisk) resurrectedRun,
        (∃ p ∈ servedOf (s.tasks 3).stage, p.2.serial = 1) ∧
        (s.tasks 3).request.url = getRequest.url ∧ keyOf plainKey (s.tasks 3).request = "get" ∧
        ∃ removal ∈ s.removals, removal.url = getRequest.url ∧
          removal.removedAt < (s.tasks 3).begunAt ∧
            (s.puts "get" 1).receivedAt < removal.sentAt := by decide +kernel
  obtain ⟨s, hrun, ⟨⟨response, stream⟩, hserved, hserial⟩, hurl, hkey, removal, hmem, hremoved,
    hover, holder⟩ := hran
  refine ⟨s, hrun, fun h => ?_⟩
  obtain ⟨found, hstage⟩ := stage_of_servedOf hserved
  have hnewer := h 3 response found stream hstage removal hmem (hremoved.trans hurl.symm) hover
  rw [hkey, show stream.serial = 1 from hserial] at hnewer
  exact absurd hnewer.2 (Nat.not_le.mpr holder)

end EasyHttp.SharedCache
