import EasyHttp.Engine.StoredRows
import EasyHttp.Message.CacheControlTheorems

/-!
# Looking a request up over whatever the rows hold

`createCacheStrategy` reads the headers of a stored response from a text in the database.

* `lookUp`: the function with its call of the cache on the disk;
* `wp_initializeCache_ready`: the cache that a lookup opens throws no exception but those of SQL;
* `wp_getMetadata_lookUp`: what the cache answers, by the row that the lookup comes to;
* `endsWithStrategy_iff`: the texts at which the lookup ends as it should.
-/

namespace EasyHttp.HttpCacheInternal

open Exec HttpConstants HttpFileCache SharedCache

/-- Code over the cache on the disk and the header lists. -/
abbrev LookupExec (α : Type) := Exec CacheException (HttpFileCache × HeaderStore) α

/-- An operation of the cache, inside the lookup. -/
def onCache {α : Type} (x : CacheExec α) : LookupExec α :=
  zoom Prod.fst (fun s cache => (cache, s.2)) x

/-- What it throws passes through. -/
def onHeaders {α : Type} (x : Exec HttpException HeaderStore α) : LookupExec α :=
  zoom Prod.snd (fun s headers => (s.1, headers)) (ExceptT.adapt CacheException.http x)

/-- `createCacheStrategy(pRequest)` with what the cache manager answers from its one cache, the
`HttpFileCache`. -/
def lookUp (poco : Poco) (json : PocoJson) (makeCacheKey : HttpMethod → String → String)
    (request : Request) (nowAtEpoch : UInt64) : LookupExec HttpCacheStrategy := do
  let key := keyOf makeCacheKey request
  if key = "" then
    onHeaders (createCacheStrategy poco request none nowAtEpoch)
  else
    let metadata ← onCache (HttpFileCache.getMetadata json key)
    onHeaders (createCacheStrategy poco request metadata nowAtEpoch)

variable {α : Type} {poco : Poco} {json : PocoJson} {makeCacheKey : HttpMethod → String → String}
  {request : Request} {nowAtEpoch : UInt64} {key text : String} {row : Row}
  {s t : HttpFileCache} {headers : HeaderStore}

/-- It leaves the header lists alone. -/
theorem wp_onCache {x : CacheExec α} {Q : α → HttpFileCache × HeaderStore → Prop}
    {E : CacheException → HttpFileCache × HeaderStore → Prop} {p : HttpFileCache × HeaderStore} :
    wp (onCache x) Q E p ↔
      wp x (fun a cache => Q a (cache, p.2)) (fun e cache => E e (cache, p.2)) p.1 := wp_zoom

/-- An operation on the header lists leaves the cache alone. -/
theorem wp_onHeaders {x : Exec HttpException HeaderStore α}
    {Q : α → HttpFileCache × HeaderStore → Prop}
    {E : CacheException → HttpFileCache × HeaderStore → Prop} {p : HttpFileCache × HeaderStore} :
    wp (onHeaders x) Q E p ↔
      wp x (fun a headers => Q a (p.1, headers)) (fun e headers => E (.http e) (p.1, headers))
        p.2 := by
  have hadapt : exec (ExceptT.adapt CacheException.http x) p.2 =
      ((exec x p.2).1.mapError CacheException.http, (exec x p.2).2) := rfl
  unfold onHeaders
  rw [wp_zoom]
  unfold wp
  rw [hadapt]
  rcases exec x p.2 with ⟨r, headers⟩
  cases r <;> exact Iff.rfl

/-! ## Opening the cache -/

/-- The list is in order, and the file system works. -/
structure Ready (s : HttpFileCache) : Prop where
  wf : s.lruCacheStrategy.Wf
  filesWork : s.disk.FilesWork

/-- An exception of the database. -/
def IsSql (e : CacheException) : Prop := ∃ e', e = .sql e'

/-- What a database throws is an exception of the database. -/
theorem isSql_of_databaseFails {disk : Disk} {e : CacheException} (h : Disk.DatabaseFails disk e) :
    IsSql e := by
  rcases h with ⟨⟨message, he⟩, -⟩ | ⟨⟨message, he⟩, -⟩
  · exact ⟨_, he⟩
  · exact ⟨_, he⟩

/-- A cache stays ready when only access times change. -/
theorem Ready.of_same (h : Ready s) {disk : Disk} (hsame : Disk.Same s.disk disk) :
    Ready { s with disk := disk } := ⟨h.wf, hsame.1.filesWork h.filesWork⟩

/-- `makeSpace` may find the database corrupted, and nothing else stops it. -/
theorem wp_makeSpaceFor_ready (h : Ready s) (requestSize : UInt64) (updatedKey : String) :
    wp (lru fun listener => LruCacheByDataSizeStrategy.makeSpaceFor
        (HttpLruCacheStrategy.virtuals listener) requestSize updatedKey)
      (fun _ t => Ready t) (fun e t => Ready t ∧ IsSql e) s := by
  rw [wp_lru]
  refine wp_mono (wp_makeSpaceFor_idle (s := s.stores) h.wf h.filesWork requestSize)
    (fun _ p hp => ⟨hp.wf, hp.later.filesWork h.filesWork⟩) fun e p hp => ?_
  obtain ⟨hp, ⟨message, he⟩, -⟩ := hp
  exact ⟨⟨hp.wf, hp.later.filesWork h.filesWork⟩, _, he⟩

theorem wp_add_ready (h : Ready s) {info : HttpCacheInfo} (hkey : info.key = key) :
    wp (lru (HttpLruCacheStrategy.add · key info)) (fun _ t => Ready t)
      (fun e t => Ready t ∧ IsSql e) s := by
  apply wp_add_unlisted
  have hspace : ∀ updatedKey, wp (LruCacheByDataSizeStrategy.makeSpaceFor
      (HttpLruCacheStrategy.virtuals (listener s.cacheRootDir)) info.dataSize updatedKey)
      (fun _ p => Ready (s.withStores p)) (fun e p => Ready (s.withStores p) ∧ IsSql e)
      s.stores := by
    intro updatedKey
    exact wp_lru.mp (wp_makeSpaceFor_ready h info.dataSize updatedKey)
  rw [wp_lru]
  unfold LruCacheByDataSizeStrategy.addOrUpdate LruCacheByDataSizeStrategy.spaceFor
  rw [wp_bind, wp_bind, wp_getState]
  have hpush : ∀ (ret : Bool) (p : Stores), Ready (s.withStores p) →
      wp (if ret = true then do
          modifyState fun q => (q.1.push key info, q.2)
          return true
        else return false : LruExec CacheException Disk HttpCacheInfo Bool)
        (fun _ q => Ready (s.withStores q)) (fun e q => Ready (s.withStores q) ∧ IsSql e) p := by
    intro ret p hp
    cases ret with
    | false => exact hp
    | true => exact ⟨hp.wf.wf_push hkey, hp.filesWork⟩
  split
  · split
    · exact wp_mono (hspace key) hpush fun _ _ he => he
    · exact hpush true s.stores h
  · exact wp_mono (hspace "") hpush fun _ _ he => he

theorem wp_onEnumerate_ready (h : Ready s) (size : UInt64) :
    wp (onEnumerate key size) (fun _ t => Ready t) (fun e t => Ready t ∧ IsSql e) s := by
  unfold onEnumerate
  rw [wp_bind]
  refine wp_mono (wp_makeSpaceFor_ready h size "") (fun ret t ht => ?_) fun _ _ he => he
  cases ret with
  | false => exact ht
  | true =>
    show wp (newHttpCacheInfo key size >>= _) _ _ t
    unfold newHttpCacheInfo
    rw [wp_bind, wp_bind, wp_getState, wp_bind, wp_modifyState, wp_pure, wp_bind]
    have ht' : Ready { t with nextSerial := t.nextSerial + 1 } := ⟨ht.wf, ht.filesWork⟩
    exact wp_mono (wp_add_ready ht' rfl) (fun _ _ hu => hu) fun _ _ he => he

theorem wp_enumerate_ready (h : Ready s) :
    wp enumerate (fun _ t => Ready t) (fun e t => Ready t ∧ IsSql e) s := by
  unfold enumerate
  rw [wp_bind, wp_onDisk]
  refine wp_mono (wp_queryAll s.disk) (fun params d hd => ?_)
    fun e d hd => ⟨h.of_same hd.1, isSql_of_databaseFails hd.2⟩
  refine wp_forEach (I := fun _ t => Ready t) (fun param rest t ht => ?_) (h.of_same hd.1)
  rw [wp_bind, wp_onDisk]
  refine wp_mono (Disk.wp_databaseCall t.disk) (fun _ d' hd' => ?_)
    fun e d' hd' => ⟨ht.of_same hd'.1, isSql_of_databaseFails hd'.2.1⟩
  rw [wp_bind]
  exact wp_mono (wp_onEnumerate_ready (ht.of_same hd'.1) _) (fun _ _ hu => hu) fun _ _ he => he

/-- A cache stays ready when it is initialized. -/
theorem wp_initializeCache_ready (h : Ready s) :
    wp initializeCache (fun _ t => Ready t) (fun e t => Ready t ∧ IsSql e) s := by
  unfold initializeCache
  rw [wp_bind, wp_getState]
  cases s.cacheInitialized with
  | true => exact h
  | false =>
    show wp (getState >>= _) _ _ s
    rw [wp_bind, wp_getState, wp_bind, wp_onDisk]
    refine wp_mono (wp_createDirsIfAbsent s.disk _) (fun created d hd => ?_) fun _ _ he => he.elim
    cases created with
    | false => exact h.of_same hd.1
    | true =>
      show wp (enumerate >>= _) _ _ { s with disk := d }
      rw [wp_bind]
      exact wp_mono (wp_enumerate_ready (h.of_same hd.1)) (fun _ _ ht => ⟨ht.wf, ht.filesWork⟩)
        fun _ _ he => he

/-! ## The row that a lookup comes to -/

/-- The cache when a lookup has opened it. -/
def opened (s : HttpFileCache) : HttpFileCache := (exec initializeCache s).2

/-- The cache can be opened, the entry is listed and will not be removed, and the database answers
with its row. -/
structure ComesTo (s : HttpFileCache) (key : String) (row : Row) : Prop where
  initialized : (exec initializeCache s).1 = .ok ()
  listed : ∃ info, (opened s).entry key = some info ∧ info.reservedRemove = false
  answered : (opened s).disk.faults.database.headD .none = .none
  found : (opened s).disk.row key = some row

/-- The call of the database behind that one, which sets the time of last access. -/
def CanTouch (s : HttpFileCache) : Prop :=
  (opened s).disk.faults.database.tail.headD .none = .none

/-- A row that the lookup comes to is read, but the failure of the next call makes it a miss. -/
def Unread (json : PocoJson) (s : HttpFileCache) (key : String) : Prop :=
  ∀ row, ComesTo s key row → ¬CanTouch s ∧ ∃ metadata, row.getMetadata json key = .ok metadata

/-- The row that the lookup comes to is read. -/
def Reads (json : PocoJson) (s : HttpFileCache) (key : String) (metadata : HttpCacheMetadata) :
    Prop :=
  ∃ row, ComesTo s key row ∧ CanTouch s ∧ row.getMetadata json key = .ok metadata

/-- The row that the lookup comes to makes it throw. -/
def Throws (json : PocoJson) (s : HttpFileCache) (key : String) : Prop :=
  ∃ row e, ComesTo s key row ∧ row.getMetadata json key = .error e

/-- A call of the database takes the first of the failures to come. -/
theorem wp_databaseCall_tail (disk : Disk) :
    wp Disk.databaseCall
      (fun _ d => Disk.Same disk d ∧ disk.faults.database.headD .none = .none ∧
        d.faults.database = disk.faults.database.tail)
      (fun e d => Disk.Same disk d ∧ IsSql e ∧ disk.faults.database.headD .none ≠ .none) disk := by
  have htail : wp Disk.databaseCall (fun _ d => d.faults.database = disk.faults.database.tail)
      (fun _ _ => True) disk := by
    unfold Disk.databaseCall
    rw [wp_bind, wp_getState, wp_bind, wp_modifyState]
    split
    · exact rfl
    · trivial
    · trivial
  exact wp_mono (wp_and (Disk.wp_databaseCall disk) htail)
    (fun _ _ hd => ⟨hd.1.1, hd.1.2, hd.2⟩)
    fun _ _ hd => ⟨hd.1.1, isSql_of_databaseFails hd.1.2.1, hd.1.2.2⟩

/-- The second half of `getMetadata`, once the entry has been found in the list. -/
theorem wp_readMetadata_lookUp (hfiles : t.disk.FilesWork) (hopen : t.disk = (opened s).disk)
    (hinit : (exec initializeCache s).1 = .ok ())
    (hlisted : ∃ info, (opened s).entry key = some info ∧ info.reservedRemove = false) :
    wp (readMetadata json key)
      (fun metadata _ => (metadata = none ∧ Unread json s key) ∨
        ∃ m, metadata = some m ∧ Reads json s key m)
      (fun e u => u.disk.FilesWork ∧ (IsSql e ∧ Unread json s key ∨
        (∃ e', e = .http e') ∧ Throws json s key)) t := by
  unfold readMetadata HttpCacheDatabase.getMetadata
  rw [wp_bind, wp_onDisk, wp_bind]
  refine wp_mono (wp_databaseCall_tail t.disk) (fun _ d hd => ?_) fun e d hd => ?_
  -- the query has answered with what is in the table
  · obtain ⟨hsame, hanswered, htail⟩ := hd
    have hfiles' : d.FilesWork := hsame.1.filesWork hfiles
    have hfound : d.rows.find? key = (opened s).disk.row key := by
      rw [← hopen]
      exact congrFun hsame.row key
    rw [hopen] at hanswered htail
    rw [wp_bind, wp_getState, hfound]
    cases hrow : (opened s).disk.row key with
    | none =>
      refine .inl ⟨rfl, fun row hcomes => ?_⟩
      rw [hcomes.found] at hrow
      cases hrow
    | some row =>
      -- the row comes to the lookup, with metadata or without
      have hcomes : ComesTo s key row := ⟨hinit, hlisted, hanswered, hrow⟩
      dsimp only
      rw [wp_bind]
      cases hread : row.getMetadata json key with
      | error e => exact ⟨hfiles', .inr ⟨⟨e, rfl⟩, row, e, hcomes, hread⟩⟩
      | ok metadata =>
        show wp (onDisk (HttpCacheDatabase.updateLastAccessedSec key) >>= fun _ =>
          pure (some metadata)) _ _ { t with disk := d }
        unfold HttpCacheDatabase.updateLastAccessedSec
        rw [wp_bind, wp_onDisk, wp_bind]
        refine wp_mono (wp_databaseCall_tail d) (fun _ d' hd' => ?_) fun e d' hd' => ?_
        · have htouch : CanTouch s := by
            unfold CanTouch
            rw [← htail]
            exact hd'.2.1
          have hreads : Reads json s key metadata := ⟨row, hcomes, htouch, hread⟩
          rw [wp_bind, wp_getState]
          split
          · exact .inr ⟨metadata, rfl, hreads⟩
          · exact .inr ⟨metadata, rfl, hreads⟩
        · refine ⟨hd'.1.1.filesWork hfiles', .inl ⟨hd'.2.1, fun row' hcomes' => ?_⟩⟩
          have hrow' := hcomes'.found
          rw [hrow] at hrow'
          cases hrow'
          refine ⟨fun htouch => hd'.2.2 ?_, metadata, hread⟩
          rw [htail]
          exact htouch
  -- the query has thrown, so no row comes
  · refine ⟨hd.1.1.filesWork hfiles, .inl ⟨hd.2.1, fun row hcomes => absurd ?_ hd.2.2⟩⟩
    rw [hopen]
    exact hcomes.answered

/-- What a lookup in the cache answers. -/
theorem wp_getMetadata_lookUp (h : Ready s) :
    wp (HttpFileCache.getMetadata json key)
      (fun metadata _ => (metadata = none ∧ Unread json s key) ∨
        ∃ m, metadata = some m ∧ Reads json s key m)
      (fun _ _ => Throws json s key) s := by
  -- the handlers make a miss of the exceptions of the database
  have hcatch : ∀ (e : CacheException) (u : HttpFileCache), u.disk.FilesWork →
      (IsSql e ∧ Unread json s key ∨ (∃ e', e = .http e') ∧ Throws json s key) →
      wp (catchSql (pure none) (pure none) e : CacheExec (Option HttpCacheMetadata))
        (fun metadata _ => (metadata = none ∧ Unread json s key) ∨
          ∃ m, metadata = some m ∧ Reads json s key m)
        (fun _ _ => Throws json s key) u := by
    intro e u hfiles he
    rcases he with ⟨hsql, hunread⟩ | ⟨⟨e', rfl⟩, hthrows⟩
    · refine wp_catchSql (fun _ => ⟨hfiles, fun _ _ => .inl ⟨rfl, hunread⟩⟩)
        (.inl ⟨rfl, hunread⟩) fun e' he' => ?_
      obtain ⟨sql, hsql⟩ := hsql
      rw [hsql] at he'
      cases he'
    · exact hthrows
  unfold HttpFileCache.getMetadata
  rw [wp_tryCatch, wp_bind]
  refine wp_mono (wp_and (wp_initializeCache_ready h) (wp_self initializeCache s))
    (fun _ t ht => ?_) fun e t ht => ?_
  -- the cache is open, and the list says whether there is an entry
  · obtain ⟨hready, hrun⟩ := ht
    have hopen : opened s = t := congrArg Prod.snd hrun
    have hinit : (exec initializeCache s).1 = .ok () := congrArg Prod.fst hrun
    rw [wp_bind]
    refine wp_mono (wp_get_entry hready.wf key) (fun found u hu => ?_) fun _ _ he => he.elim
    obtain ⟨hfound, -, hdisk, -⟩ := hu
    rw [← hopen] at hfound
    cases found with
    | none =>
      refine .inl ⟨rfl, fun row hcomes => ?_⟩
      obtain ⟨info, hinfo, -⟩ := hcomes.listed
      rw [← hfound] at hinfo
      cases hinfo
    | some info =>
      -- an entry that is to be removed is not answered
      by_cases hreserved : info.reservedRemove = true
      · dsimp only
        rw [if_pos hreserved]
        refine .inl ⟨rfl, fun row hcomes => ?_⟩
        obtain ⟨info', hinfo', hnot⟩ := hcomes.listed
        rw [← hfound] at hinfo'
        cases hinfo'
        rw [hreserved] at hnot
        cases hnot
      · dsimp only
        rw [if_neg hreserved]
        have hlisted : ∃ info, (opened s).entry key = some info ∧ info.reservedRemove = false :=
          ⟨info, hfound.symm, eq_false_of_ne_true hreserved⟩
        have hfiles : u.disk.FilesWork := by
          rw [hdisk]
          exact hready.filesWork
        have hdisk' : u.disk = (opened s).disk := by
          rw [hopen]
          exact hdisk
        exact wp_mono (wp_readMetadata_lookUp hfiles hdisk' hinit hlisted) (fun _ _ hm => hm)
          fun e v hv => hcatch e v hv.1 hv.2
  -- the cache could not be opened
  · obtain ⟨⟨hready, hsql⟩, hrun⟩ := ht
    refine hcatch e t hready.filesWork (.inl ⟨hsql, fun row hcomes => ?_⟩)
    have hinit := hcomes.initialized
    rw [hrun] at hinit
    cases hinit

/-! ## What the text must be -/

/-- No member of the object has an empty name. -/
def HasNames (json : PocoJson) (text : String) : Prop :=
  ∀ o, json.parse text = some o → ∀ e ∈ o.entries, e.1 ≠ ""

/-- It is an object of strings, and the directives of its `Cache-Control` members can be read. -/
def HasDirectives (json : PocoJson) (text : String) : Prop :=
  ∃ o, json.parse text = some o ∧ ∀ e ∈ o.entries, lower e.1 = lower HeaderNames.CacheControl →
    ∀ piece ∈ e.2.toList.splitOn ',', ¬CacheControl.OnlyEqualSigns piece

/-- Headers can be made exactly if no name is empty. -/
theorem addAll_isOk_iff {items : List (String × String)} :
    (∃ added, Headers.empty.addAll items = .ok added) ↔ ∀ e ∈ items, e.1 ≠ "" := by
  constructor
  · intro h e he
    obtain ⟨added, hadd⟩ := h
    apply added.named e
    apply (Headers.addAll_perm hadd).symm.subset
    exact List.mem_append_right _ he
  · intro hnamed
    obtain ⟨added, hadd, -⟩ := Headers.addAll_of_named hnamed Headers.empty
    exact ⟨added, hadd⟩

/-- A row has metadata exactly if its headers have names. -/
theorem getMetadata_isOk_iff :
    (∃ metadata, row.getMetadata json key = .ok metadata) ↔
      HasNames json row.responseHeaderJson := by
  have hexchange : (∃ metadata, row.getMetadata json key = .ok metadata) ↔
      ∃ found, HttpUtil.exchangeJsonStrToHeaders json.parse row.responseHeaderJson = .ok found := by
    constructor
    · intro h
      obtain ⟨metadata, hread⟩ := h
      exact ⟨metadata.responseHeaders, (getMetadata_ok hread).1⟩
    · intro h
      obtain ⟨found, hfound⟩ := h
      unfold Row.getMetadata
      rw [hfound]
      exact ⟨_, rfl⟩
  rw [hexchange]
  unfold HttpUtil.exchangeJsonStrToHeaders HasNames
  cases json.parse row.responseHeaderJson with
  | none => exact ⟨fun _ _ ho => (by cases ho), fun _ => ⟨none, rfl⟩⟩
  | some o =>
    simp only [Option.some.injEq, forall_eq', ← addAll_isOk_iff]
    constructor
    · intro h
      obtain ⟨found, hfound⟩ := h
      obtain ⟨added, hadd, -⟩ := exists_of_bind_ok hfound
      exact ⟨added, hadd⟩
    · intro h
      obtain ⟨added, hadd⟩ := h
      rw [hadd]
      exact ⟨some added, rfl⟩

/-- The directives are those of the members, in whatever order. -/
theorem createFromHeaders_addAll (poco : Poco) {o : JsonObject} {added : Headers}
    (hadd : Headers.empty.addAll o.entries = .ok added) :
    (∃ c, CacheControl.createFromHeaders poco (some added) = .ok c) ↔
      ∀ e ∈ o.entries, lower e.1 = lower HeaderNames.CacheControl →
        ∀ piece ∈ e.2.toList.splitOn ',', ¬CacheControl.OnlyEqualSigns piece := by
  have hmem : ∀ e, e ∈ o.entries ↔ e ∈ added.items := fun e =>
    (Headers.addAll_perm hadd).symm.mem_iff
  simp only [hmem, ← CacheControl.forall_texts_iff, CacheControl.createFromHeaders_ok,
    exists_and_left, exists_eq, and_true]

/-- A stored response is made of metadata whose headers are not NULL and have directives. -/
theorem createResponse_isOk_iff (poco : Poco) (request : Request) {metadata : HttpCacheMetadata}
    (hread : row.getMetadata json key = .ok metadata) :
    (∃ response, createResponseFromCacheMetadata poco request metadata = .ok response) ↔
      HasDirectives json row.responseHeaderJson := by
  obtain ⟨hjson, -⟩ := getMetadata_ok hread
  constructor
  · intro h
    obtain ⟨response, hcreate⟩ := h
    obtain ⟨added, hadded, -⟩ := createResponse_ok hcreate
    obtain ⟨c, hcontrol, -⟩ := exists_of_bind_ok hcreate
    rw [hadded] at hjson hcontrol
    obtain ⟨o, hparse, hadd⟩ := exchangeJson_ok hjson
    exact ⟨o, hparse, (createFromHeaders_addAll poco hadd).mp ⟨c, hcontrol⟩⟩
  · intro h
    obtain ⟨o, hparse, hdirectives⟩ := h
    unfold HttpUtil.exchangeJsonStrToHeaders at hjson
    rw [hparse] at hjson
    obtain ⟨added, hadd, hsome⟩ := exists_of_bind_ok hjson
    have hadded : metadata.responseHeaders = some added := (Except.ok.inj hsome).symm
    obtain ⟨c, hcontrol⟩ := (createFromHeaders_addAll poco hadd).mpr hdirectives
    unfold createResponseFromCacheMetadata
    rw [hadded, hcontrol]
    show ∃ response, (if added.has HeaderNames.ContentLength = true then _ else _) = _
    by_cases hhas : added.has HeaderNames.ContentLength = true
    · rw [if_pos hhas]
      cases poco.tryParse64 (added.getValue HeaderNames.ContentLength "-1") with
      | none => exact ⟨_, rfl⟩
      | some contentLength => exact ⟨_, rfl⟩
    · rw [if_neg hhas]
      exact ⟨_, rfl⟩

/-! ## The strategy -/

/-- With a URL that can be read the constructor throws nothing. -/
theorem exists_construct (nowAtEpoch : UInt64) (huri : ∃ uri, poco.uri request.url = .ok uri)
    (stored : Option Response) (hstored : ∀ response ∈ stored, response.request = request)
    (headers : HeaderStore) :
    ∃ strategy headers', exec (HttpCacheStrategy.construct poco request stored nowAtEpoch)
      headers = (.ok strategy, headers') := by
  -- without a stored response the request is sent as it is
  cases stored with
  | none => exact ⟨_, _, HttpCacheStrategy.exec_construct_none poco request nowAtEpoch headers⟩
  | some response =>
    have hrequest : response.request = request := hstored response rfl
    obtain ⟨uri, huri⟩ := huri
    obtain ⟨p, hp⟩ : ∃ p, p = HttpCacheStrategy.prepare poco response nowAtEpoch := ⟨_, rfl⟩
    have hurl : poco.parseUri p.cacheResponse.request.url = .ok uri := by
      have hresponse : p.cacheResponse = response := by
        rw [hp]
        rfl
      rw [hresponse, hrequest]
      unfold Poco.parseUri
      rw [huri]
    -- the lifetime and the age can be computed, for the URL parses
    obtain ⟨lifetime, hlifetime⟩ : ∃ lifetime,
        HttpCacheStrategy.calculateFreshnessLifetime poco p = .ok lifetime := by
      unfold HttpCacheStrategy.calculateFreshnessLifetime
      rw [hurl]
      split
      · exact ⟨_, rfl⟩
      split
      · exact ⟨_, rfl⟩
      · cases p.lastModified with
        | none => exact ⟨_, rfl⟩
        | some lastModified =>
          show ∃ lifetime, (if uri.query = "" then _ else _) = _
          split
          · exact ⟨_, rfl⟩
          · exact ⟨_, rfl⟩
    obtain ⟨c, hc⟩ : ∃ c, HttpCacheStrategy.ageCondition poco request.cacheControl p = .ok c := by
      unfold HttpCacheStrategy.ageCondition
      rw [hlifetime]
      exact ⟨_, rfl⟩
    show ∃ strategy headers', exec
      (HttpCacheStrategy.resolveCacheResponseAndNetworkRequest poco request _) headers = _
    rw [← hp]
    -- fresh, not asked for from the cache only, or stale
    by_cases hfresh : HttpCacheStrategy.isFresh p c = true
    · obtain ⟨cacheResponse, -, hrun⟩ := HttpCacheStrategy.exec_resolve_fresh hc hfresh headers
      exact ⟨_, _, hrun⟩
    · have hfresh := eq_false_of_ne_true hfresh
      by_cases honly : request.cacheControl.onlyIfCached = true
      · exact ⟨_, _, HttpCacheStrategy.exec_resolve_onlyIfCached hc hfresh honly headers⟩
      · rw [HttpCacheStrategy.exec_resolve_stale hc hfresh (eq_false_of_ne_true honly)]
        cases hcond : HttpCacheStrategy.conditionalRequestHeader p.cacheResponse with
        | none => exact ⟨_, _, HttpCacheStrategy.exec_createNetworkRequest_none hcond _ _ _⟩
        | some header =>
          exact ⟨_, _, HttpCacheStrategy.exec_createNetworkRequest_some hcond _ _ _⟩

/-- The lookup ends with the strategy of a miss, or with one over a response whose headers come
from the row. -/
def EndsWithStrategy (poco : Poco) (json : PocoJson) (makeCacheKey : HttpMethod → String → String)
    (request : Request) (nowAtEpoch : UInt64) (s : HttpFileCache) (headers : HeaderStore) : Prop :=
  ∃ stored strategy t headers',
    exec (lookUp poco json makeCacheKey request nowAtEpoch) (s, headers) =
      (.ok strategy, t, headers') ∧
    exec (HttpCacheStrategy.construct poco request stored nowAtEpoch) headers =
      (.ok strategy, headers') ∧
    ∀ response ∈ stored, ∃ row,
      (opened s).disk.row (keyOf makeCacheKey request) = some row ∧
      readResponse poco json (keyOf makeCacheKey request) request row = .ok response

/-- What the lookup needs of the row that it comes to. -/
def Readable (json : PocoJson) (s : HttpFileCache) (row : Row) : Prop :=
  HasNames json row.responseHeaderJson ∧ (CanTouch s → HasDirectives json row.responseHeaderJson)

/-- The row of a key is one. -/
theorem ComesTo.unique {row' : Row} (h : ComesTo s key row) (h' : ComesTo s key row') :
    row' = row := Option.some.inj (h'.found.symm.trans h.found)

/-- The metadata of a stored response are turned into that response. -/
theorem exec_createCacheStrategy {metadata : HttpCacheMetadata} {response : Response}
    (hcreate : createResponseFromCacheMetadata poco request metadata = .ok response) :
    exec (createCacheStrategy poco request (some metadata) nowAtEpoch) headers =
      exec (HttpCacheStrategy.construct poco request (some response) nowAtEpoch) headers := by
  unfold createCacheStrategy
  dsimp only
  rw [hcreate, exec_bind_ok (exec_lift _ _)]

/-- Metadata without a response of its own stops the strategy. -/
theorem exec_createCacheStrategy_error {metadata : HttpCacheMetadata} {e : HttpException}
    (hcreate : createResponseFromCacheMetadata poco request metadata = .error e) :
    exec (createCacheStrategy poco request (some metadata) nowAtEpoch) headers =
      (.error e, headers) := by
  unfold createCacheStrategy
  dsimp only
  rw [hcreate, exec_bind_error (exec_lift _ _)]

/-- How a lookup ends is told by the row that it comes to. -/
theorem wp_lookUp (json : PocoJson) (nowAtEpoch : UInt64) (headers : HeaderStore)
    (hready : Ready s) (huri : ∃ uri, poco.uri request.url = .ok uri)
    (hkey : keyOf makeCacheKey request = key) :
    wp (lookUp poco json makeCacheKey request nowAtEpoch)
      (fun strategy p => (key ≠ "" → ∀ row, ComesTo s key row → Readable json s row) ∧
        ∃ stored, exec (HttpCacheStrategy.construct poco request stored nowAtEpoch) headers =
          (.ok strategy, p.2) ∧ ∀ response ∈ stored, ∃ row, (opened s).disk.row key = some row ∧
            readResponse poco json key request row = .ok response)
      (fun _ _ => ¬(key ≠ "" → ∀ row, ComesTo s key row → Readable json s row)) (s, headers) := by
  have hnone : ∀ response ∈ (none : Option Response), response.request = request :=
    fun _ h => by cases h
  obtain ⟨missed, headers', hmiss⟩ := exists_construct nowAtEpoch huri none hnone headers
  unfold lookUp
  dsimp only
  rw [hkey]
  -- a request without a key is not looked up
  by_cases hempty : key = ""
  · rw [if_pos hempty, wp_onHeaders]
    unfold wp createCacheStrategy
    dsimp only
    rw [hmiss]
    exact ⟨fun hne => absurd hempty hne, none, hmiss, fun _ h => by cases h⟩
  rw [if_neg hempty, wp_bind, wp_onCache]
  refine wp_mono (wp_getMetadata_lookUp hready) (fun metadata t ht => ?_) fun e t ht => ?_
  · rw [wp_onHeaders]
    -- nothing is read from the cache, or metadata are
    rcases ht with ⟨rfl, hunread⟩ | ⟨m, rfl, row, hcomes, htouch, hread⟩
    · unfold wp createCacheStrategy
      dsimp only
      rw [hmiss]
      refine ⟨fun _ row hcomes => ?_, none, hmiss, fun _ h => by cases h⟩
      obtain ⟨hnot, hread⟩ := hunread row hcomes
      exact ⟨getMetadata_isOk_iff.mp hread, fun htouch => absurd htouch hnot⟩
    · have hdirectives := createResponse_isOk_iff poco request hread
      unfold wp
      dsimp only
      -- the metadata make a response, unless a directive does not parse
      cases hcreate : createResponseFromCacheMetadata poco request m with
      | error e =>
        rw [exec_createCacheStrategy_error hcreate]
        intro hall
        obtain ⟨response, hok⟩ := hdirectives.mpr ((hall hempty row hcomes).2 htouch)
        rw [hcreate] at hok
        cases hok
      | ok response =>
        obtain ⟨-, -, -, hrequest, -⟩ := createResponse_ok hcreate
        have hstored : ∀ r ∈ some response, r.request = request := by
          intro r hr
          cases hr
          exact hrequest
        obtain ⟨strategy, headers'', hrun⟩ := exists_construct nowAtEpoch huri (some response)
          hstored headers
        rw [exec_createCacheStrategy hcreate, hrun]
        refine ⟨fun _ row' hcomes' => ?_, some response, hrun, fun r hr => ?_⟩
        · rw [hcomes.unique hcomes']
          exact ⟨getMetadata_isOk_iff.mp ⟨m, hread⟩, fun _ => hdirectives.mp ⟨response, hcreate⟩⟩
        · cases hr
          refine ⟨row, hcomes.found, ?_⟩
          unfold readResponse
          rw [hread]
          exact hcreate
  -- `getMetadata` has thrown for a header without a name
  · obtain ⟨row, e', hcomes, herror⟩ := ht
    intro hall
    obtain ⟨metadata, hread⟩ := getMetadata_isOk_iff.mpr (hall hempty row hcomes).1
    rw [hread] at herror
    cases herror

/-- **Lookup.** Over a working file system, whatever the database holds and answers, the lookup
of a request with a URL that can be read ends as it should if and only if the row that it comes
to is readable. -/
theorem endsWithStrategy_iff (hready : Ready s) (huri : ∃ uri, poco.uri request.url = .ok uri) :
    EndsWithStrategy poco json makeCacheKey request nowAtEpoch s headers ↔
      (keyOf makeCacheKey request ≠ "" →
        ∀ row, ComesTo s (keyOf makeCacheKey request) row → Readable json s row) := by
  have hends := wp_lookUp json nowAtEpoch headers hready huri
    (rfl : keyOf makeCacheKey request = keyOf makeCacheKey request)
  unfold wp at hends
  rcases hrun : exec (lookUp poco json makeCacheKey request nowAtEpoch) (s, headers) with ⟨r, p⟩
  rw [hrun] at hends
  cases r with
  | error e =>
    constructor
    · intro h
      obtain ⟨stored, strategy, t, headers', hok, -⟩ := h
      rw [hrun] at hok
      cases hok
    · intro hall
      exact absurd hall hends
  | ok strategy =>
    obtain ⟨hall, stored, hstrategy, hstored⟩ := hends
    constructor
    · intro _
      exact hall
    · intro _
      exact ⟨stored, strategy, p.1, p.2, hrun, hstrategy, hstored⟩

/-! ## Stored texts -/

/-- A request of the user. -/
def plainLookup : Request := ⟨.get, "http://example.com/", none, 0, {}, none⟩

/-- An initialized cache with one entry, whose row has the given text. -/
def cacheOf (text : String) : HttpFileCache where
  cacheInitialized := true
  cacheRootDir := "/cache"
  lruCacheStrategy := (LruCacheByDataSizeStrategy.construct 100).push "k" ⟨"k", 1, false, 0, 0⟩
  disk := {
    files := SortedMap.empty
    rows := SortedMap.empty.set "k" {
      url := "http://host/"
      httpMethod := .get
      statusCode := 200
      statusMessage := "OK"
      responseHeaderJson := text
      responseBodySize := 1
      sentRequestAtEpoch := 5
      receivedResponseAtEpoch := 5
      lastAccessedAtEpoch := 5 }
    nowAtEpoch := 10
    faults := {} }
  nextSerial := 1

/-- A cache with one row is ready. -/
theorem ready_cacheOf (text : String) : Ready (cacheOf text) where
  wf := (LruCacheByDataSizeStrategy.wf_construct 100).wf_push rfl
  filesWork := by
    intro fault hfault
    cases hfault

/-- A stored `ETag` is read. -/
theorem endsWithStrategy_etag :
    EndsWithStrategy Poco.plain CacheReaders.plainJson (fun _ _ => "k") plainLookup 10
      (cacheOf "\x7b\"ETag\":\"v1\"\x7d") ⟨[Headers.empty]⟩ := by
  refine (endsWithStrategy_iff (ready_cacheOf _) ⟨⟨"http", "example.com", 80, ""⟩, rfl⟩).mpr ?_
  intro _ row hcomes
  have hrow : row.responseHeaderJson = "\x7b\"ETag\":\"v1\"\x7d" := by
    have hfound := hcomes.found
    cases hfound
    rfl
  have hparse : (CacheReaders.plainJson.parse row.responseHeaderJson).map (·.entries) =
      some [("ETag", "v1")] := by
    rw [hrow]
    decide +kernel
  obtain ⟨o, ho, hentries⟩ := Option.map_eq_some_iff.mp hparse
  refine ⟨fun o' ho' => ?_, fun _ => ⟨o, ho, ?_⟩⟩
  · rw [ho] at ho'
    cases ho'
    rw [hentries]
    decide
  · rw [hentries]
    intro e he hname
    cases List.mem_singleton.mp he
    exact absurd hname (by decide)

/-- A text that is no JSON makes a NULL header list that is dereferenced, and the exception for a
member without a name escapes. -/
theorem not_endsWithStrategy_malformed :
    (exec (lookUp Poco.plain CacheReaders.plainJson (fun _ _ => "k") plainLookup 10)
      (cacheOf "no JSON", ⟨[Headers.empty]⟩)).1 = .error (.http (.poco "Null pointer")) ∧
    (exec (lookUp Poco.plain CacheReaders.plainJson (fun _ _ => "k") plainLookup 10)
      (cacheOf "\x7b\"\":\"v1\"\x7d", ⟨[Headers.empty]⟩)).1 =
        .error (.http (.illegalArgument "can not add empty name in header.")) ∧
    ¬EndsWithStrategy Poco.plain CacheReaders.plainJson (fun _ _ => "k") plainLookup 10
      (cacheOf "no JSON") ⟨[Headers.empty]⟩ := by
  have hnull : (exec (lookUp Poco.plain CacheReaders.plainJson (fun _ _ => "k") plainLookup 10)
      (cacheOf "no JSON", ⟨[Headers.empty]⟩)).1 = .error (.http (.poco "Null pointer")) := by
    decide +kernel
  refine ⟨hnull, by decide +kernel, ?_⟩
  intro h
  obtain ⟨stored, strategy, t, headers, hrun, -⟩ := h
  rw [hrun] at hnull
  cases hnull

end EasyHttp.HttpCacheInternal
