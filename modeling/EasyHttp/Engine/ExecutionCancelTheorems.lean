import EasyHttp.Engine.ExecutionCancel

/-!
# Which `cancel` is missed

As long as `execute` goes on, the executor and its engine know of every `cancel`, and each check
stops a call that was cancelled before it. So what is over at the publication and was not noticed
has come after the last check. Nothing looks at it any more: the publication does not, and
`cancel` found no response whose stream it could close.

* `Live`, `Published`: what holds before the publication, and after it;
* `step_inv`: a section keeps this;
* `notMissed_iff`: the schedules in which no `cancel` is missed;
* `cancel_missed`: one that is missed while the response is taken from the cache.
-/

namespace EasyHttp.ExecutionCancel

open Exec HttpConstants

/-! ## The invariant -/

/-- The stream of the response at hand is that of the response for the user. -/
def Stage.hasAnswer : Stage → Bool
  | answered _ | publishing _ => true
  | _ => false

/-- Before the publication. -/
structure Live (s : System) : Prop where
  notPublished : s.stage.isPublished = false
  cancelledBefore : s.cancelledBefore = s.executor.cancelled
  cancelledUnchecked : s.cancelledUnchecked = s.executor.cancelled
  cancelledAfter : s.cancelledAfter = false
  engine : ∀ engine, s.executor.httpEngine = some engine → engine.cancelled = s.executor.cancelled
  userResponse : s.executor.userResponse = none
  streamOpen : s.stage.hasAnswer = true → s.streamClosed = false

/-- After the publication only `cancel` does anything. -/
structure Published (s : System) : Prop where
  isPublished : s.stage.isPublished = true
  cancelledUnchecked : s.cancelledUnchecked = s.cancelledBefore
  streamClosed : (s.executor.userResponse.bind Response.body).isSome = true →
    s.streamClosed = s.cancelledAfter

/-- What holds before the publication, and what holds after it. -/
def Inv (s : System) : Prop := Live s ∨ Published s

variable {poco : Poco} {context : Context} {s s' : System} {action : Action} {stage : Stage}
  {engine : HttpEngine} {attempt : Attempt} {networkRequest retryRequest : Request}
  {userResponse networkResponse : Response} {e : HttpException} {p : ConnectionPtr}

theorem live_init (request : Request) (pool : ConnectionPoolInternal) (headers : HeaderStore) :
    Live (System.init request pool headers) := by
  refine ⟨rfl, rfl, rfl, rfl, ?_, rfl, fun _ => rfl⟩
  intro engine hengine
  exact (Option.some_ne_none engine hengine.symm).elim

/-! ## What the sections are made of -/

namespace Live

theorem goTo (h : Live s) (hpublished : stage.isPublished = false)
    (hanswer : stage.hasAnswer = true → s.streamClosed = false) : Live (s.goTo stage) :=
  ⟨hpublished, h.cancelledBefore, h.cancelledUnchecked, h.cancelledAfter, h.engine,
    h.userResponse, hanswer⟩

theorem setEngine (h : Live s) (engine : HttpEngine)
    (hengine : engine.cancelled = s.executor.cancelled) : Live (s.setEngine engine) := by
  refine ⟨h.notPublished, h.cancelledBefore, h.cancelledUnchecked, h.cancelledAfter, ?_,
    h.userResponse, h.streamOpen⟩
  intro engine' hengine'
  cases hengine'
  exact hengine

/-- What is passed is a check that has found no `cancel`. -/
theorem pass (h : Live s) (hcancelled : s.executor.cancelled = false)
    (hpublished : stage.isPublished = false) (hanswer : stage.hasAnswer = false) :
    Live (s.pass stage) := by
  refine ⟨hpublished, h.cancelledBefore, hcancelled.symm, h.cancelledAfter, h.engine,
    h.userResponse, ?_⟩
  intro htrue
  exact absurd (hanswer.symm.trans htrue) Bool.false_ne_true

theorem answer (h : Live s) : Live (s.answer userResponse) :=
  ⟨rfl, h.cancelledBefore, h.cancelledUnchecked, h.cancelledAfter, h.engine, h.userResponse,
    fun _ => rfl⟩

/-- The pool does not matter. -/
theorem setPool (h : Live s) (pool : ConnectionPoolInternal) : Live { s with pool := pool } :=
  ⟨h.notPublished, h.cancelledBefore, h.cancelledUnchecked, h.cancelledAfter, h.engine,
    h.userResponse, h.streamOpen⟩

theorem setHeaders (h : Live s) (headers : HeaderStore) : Live { s with headers := headers } :=
  ⟨h.notPublished, h.cancelledBefore, h.cancelledUnchecked, h.cancelledAfter, h.engine,
    h.userResponse, h.streamOpen⟩

end Live

/-! ## The sections of `execute` -/

theorem live_createEngine (h : Live s) (currentRequest : Request) (address : ListenerPtr) :
    Live (createEngine s currentRequest address) := by
  unfold createEngine
  split
  · exact h.goTo rfl nofun
  · rename_i hcancelled
    rw [Bool.not_eq_true] at hcancelled
    have hdestroy : Live (destroyEngine s) ∧ (destroyEngine s).executor = s.executor := by
      unfold destroyEngine
      split
      · exact ⟨h.setPool _, rfl⟩
      · exact ⟨h, rfl⟩
    obtain ⟨hlive, hexecutor⟩ := hdestroy
    have hnot : (destroyEngine s).executor.cancelled = false := by
      rw [hexecutor]
      exact hcancelled
    exact (hlive.setEngine _ hnot.symm).pass hnot rfl rfl

theorem live_checkCache (h : Live s) (hengine : engine.cancelled = s.executor.cancelled)
    (env : Surroundings) : Live (checkCacheBeforeSendRequest poco context s engine env) := by
  unfold checkCacheBeforeSendRequest
  rcases exec (HttpEngine.checkCacheBeforeSendRequest poco context.hasCache env
    engine.userRequest) s.headers with ⟨result, headers⟩
  have hlive := h.setHeaders headers
  cases result with
  | error e => exact hlive.goTo rfl nofun
  | ok check =>
    have hset := hlive.setEngine { engine with cacheResponse := check.cacheResponse }
      hengine
    dsimp only
    split
    · exact hset.answer
    · exact hset.goTo rfl nofun
    · exact hset.goTo rfl nofun

theorem live_start (h : Live s) (hengine : engine.cancelled = s.executor.cancelled)
    (forceToCreateConnection : Bool) :
    Live (start poco context s engine networkRequest forceToCreateConnection) := by
  unfold start
  split
  · exact h.goTo rfl nofun
  · rename_i hcancelled
    rw [Bool.not_eq_true, hengine] at hcancelled
    have hpool : Live (chooseConnectionPool context s) ∧
        (chooseConnectionPool context s).executor = s.executor := by
      unfold chooseConnectionPool
      split
      · exact ⟨h, rfl⟩
      · exact ⟨h.setPool _, rfl⟩
    obtain ⟨hlive, hexecutor⟩ := hpool
    have hnot : (chooseConnectionPool context s).executor.cancelled = false := by
      rw [hexecutor]
      exact hcancelled
    dsimp only
    split
    · exact hlive.pass hnot rfl rfl
    · cases forceToCreateConnection with
      | true => exact hlive.pass hnot rfl rfl
      | false => exact hlive.pass hnot rfl rfl

theorem live_findAndReuseConnection (h : Live s) :
    Live (findAndReuseConnection poco context s attempt) := by
  unfold findAndReuseConnection
  split
  · exact (h.setPool _).goTo rfl nofun
  · exact (h.setPool _).goTo rfl nofun

theorem live_createConnection (h : Live s) (p : ConnectionPtr)
    (sslContext : Except HttpException Unit) :
    Live (createConnection poco context s attempt p sslContext) := by
  unfold createConnection
  split
  · exact h.goTo rfl nofun
  · exact (h.setPool _).goTo rfl nofun

theorem live_installConnection (h : Live s) (hengine : engine.cancelled = s.executor.cancelled) :
    Live (installConnection s engine attempt p) :=
  ((h.setEngine { engine with connectionInternal := some p } hengine).setPool _).goTo
    rfl nofun

theorem live_sendRequest (h : Live s) (sending : Except HttpException Unit) :
    Live (sendRequest s attempt sending) := by
  cases sending with
  | error e => exact h.goTo rfl nofun
  | ok _ => exact h.goTo rfl nofun

theorem live_checkAfterConnect (h : Live s) (hengine : engine.cancelled = s.executor.cancelled) :
    Live (checkAfterConnect s engine attempt) := by
  unfold checkAfterConnect
  split
  · exact h.goTo rfl nofun
  · rename_i hcancelled
    rw [Bool.not_eq_true, hengine] at hcancelled
    exact h.pass hcancelled rfl rfl

theorem live_receiveResponse (h : Live s) (network : Except HttpException NetworkAnswer)
    (keepAlive : Bool) : Live (receiveResponse poco s engine attempt network keepAlive) := by
  unfold receiveResponse
  cases network with
  | error e => exact h.goTo rfl nofun
  | ok answer =>
    have hlive : Live (removeClosed s engine keepAlive) := by
      unfold removeClosed
      split
      · exact h.setPool _
      · exact h
    dsimp only
    split
    · exact hlive.goTo rfl nofun
    · exact hlive.goTo rfl nofun

theorem live_takeConnectionInternal (h : Live s)
    (hengine : engine.cancelled = s.executor.cancelled) (connectionReused : Bool) :
    Live (takeConnectionInternal s engine networkRequest connectionReused e) := by
  unfold takeConnectionInternal
  split
  · exact h.goTo rfl nofun
  · exact h.goTo rfl nofun
  · exact (h.setEngine { engine with connectionInternal := none } hengine).goTo
      rfl nofun

theorem live_handle (h : Live s) (hengine : engine.cancelled = s.executor.cancelled)
    (connectionReused : Bool) (reset : Except HttpException Bool) :
    Live (handle s engine networkRequest connectionReused e p reset) := by
  have hlive := h.setPool (s.pool.removeConnection p).2
  unfold handle
  dsimp only
  split
  · split
    · exact hlive.goTo rfl nofun
    · rename_i hretry
      rw [Bool.not_eq_true, Bool.or_eq_false_iff, hengine] at hretry
      split
      · exact hlive.goTo rfl nofun
      · exact hlive.goTo rfl nofun
      · exact (hlive.setPool _).pass hretry.1 rfl rfl
  · exact hlive.goTo rfl nofun

theorem live_createUserResponse (h : Live s) (env : Surroundings) :
    Live (createUserResponse poco context s engine networkResponse env) := by
  unfold createUserResponse
  split
  · exact h.goTo rfl nofun
  · exact h.answer

theorem live_checkRetry (h : Live s) (hstage : s.stage = .answered userResponse) :
    Live (checkRetry poco s userResponse) := by
  have hopen : s.streamClosed = false := h.streamOpen (by rw [hstage]; rfl)
  unfold checkRetry
  rcases exec (HttpEngine.getRetryRequest poco userResponse) s.headers with ⟨result, headers⟩
  have hlive := h.setHeaders headers
  dsimp only
  split
  · exact hlive.goTo rfl nofun
  · exact hlive.goTo rfl nofun
  · exact hlive.goTo rfl fun _ => hopen

theorem live_redirect (h : Live s) (hstage : s.stage = .redirecting userResponse retryRequest)
    (readAll : Except HttpException Unit) :
    Live (redirect context s userResponse retryRequest readAll) := by
  unfold redirect
  split
  · exact h.goTo rfl nofun
  · have hread : Live { s with
        retryCount := s.retryCount + 1
        streamClosed := s.streamClosed || context.hasCache && userResponse.body.isSome } := by
      refine ⟨h.notPublished, h.cancelledBefore, h.cancelledUnchecked, h.cancelledAfter,
        h.engine, h.userResponse, ?_⟩
      rw [hstage]
      nofun
    dsimp only
    split
    · exact hread.goTo rfl nofun
    · exact hread.goTo rfl nofun

/-- What `cancel` could not close before stays open. -/
theorem published_publish (h : Live s) (hstage : s.stage = .publishing userResponse) :
    Published (publish s userResponse) := by
  refine ⟨rfl, h.cancelledUnchecked.trans h.cancelledBefore.symm, ?_⟩
  intro _
  have hopen : s.streamClosed = false := h.streamOpen (by rw [hstage]; rfl)
  exact hopen.trans h.cancelledAfter.symm

/-! ## `cancel` -/

/-- A cancelled engine is cancelled. -/
theorem cancel_cancelled (engine : HttpEngine) (pool : ConnectionPoolInternal)
    (connectionCancelled : Bool) :
    (engine.cancel pool connectionCancelled).2.1.cancelled = true := by
  unfold HttpEngine.cancel
  split
  · assumption
  · split
    · rfl
    · rfl

/-- To cancel the engine changes the engine and the pool. -/
theorem cancelEngine_eq (s : System) (connectionCancelled : Bool) :
    ∃ httpEngine pool, (cancelEngine s connectionCancelled).2 =
        { s with executor := { s.executor with httpEngine := httpEngine }, pool := pool } ∧
      ∀ engine, httpEngine = some engine → engine.cancelled = true := by
  unfold cancelEngine
  cases hengine : s.executor.httpEngine with
  | none =>
    refine ⟨none, s.pool, ?_, ?_⟩
    · show s = _
      rw [← hengine]
    · intro engine hsome
      cases hsome
  | some engine =>
    refine ⟨_, _, rfl, ?_⟩
    intro engine' hsome
    cases hsome
    exact cancel_cancelled engine s.pool connectionCancelled

/-- The stream of a published response is closed, if it has one. -/
theorem closeUserResponse_eq (s : System) : closeUserResponse s = { s with
    streamClosed := s.streamClosed || (s.executor.userResponse.bind Response.body).isSome } := by
  unfold closeUserResponse
  cases s.executor.userResponse.bind Response.body with
  | none =>
    show s = { s with streamClosed := s.streamClosed || false }
    rw [Bool.or_false]
  | some body =>
    show { s with streamClosed := true } = { s with streamClosed := s.streamClosed || true }
    rw [Bool.or_true]

/-- The executor and the engine know of it, and the stream of a published response is closed. -/
theorem cancel_eq (s : System) (connectionCancelled : Bool) :
    ∃ httpEngine pool, (cancel s connectionCancelled).2 =
        { s with
          executor := { s.executor with httpEngine := httpEngine, cancelled := true }
          pool := pool
          streamClosed := s.streamClosed ||
            (s.executor.userResponse.bind Response.body).isSome } ∧
      ∀ engine, httpEngine = some engine → engine.cancelled = true := by
  obtain ⟨httpEngine, pool, heq, hengine⟩ := cancelEngine_eq
    { s with executor := { s.executor with cancelled := true } } connectionCancelled
  refine ⟨httpEngine, pool, ?_, hengine⟩
  show closeUserResponse (cancelEngine _ connectionCancelled).2 = _
  rw [heq, closeUserResponse_eq]

/-- Before the publication a cancel reaches executor and engine, and closes no stream. -/
theorem live_cancel (h : Live s) (connectionCancelled : Bool) :
    Live (cancel (record s) connectionCancelled).2 := by
  have hrecord : record s = { s with cancelledBefore := true, cancelledUnchecked := true } := by
    unfold record
    rw [h.notPublished]
    rfl
  obtain ⟨httpEngine, pool, heq, hengine⟩ := cancel_eq (record s) connectionCancelled
  rw [heq, hrecord]
  refine ⟨h.notPublished, rfl, rfl, h.cancelledAfter, hengine, h.userResponse, ?_⟩
  intro hanswer
  show (s.streamClosed || (s.executor.userResponse.bind Response.body).isSome) = false
  rw [h.streamOpen hanswer, h.userResponse]
  rfl

/-- After the publication a cancel closes the stream. -/
theorem published_cancel (h : Published s) (connectionCancelled : Bool) :
    Published (cancel (record s) connectionCancelled).2 := by
  have hrecord : record s = { s with cancelledAfter := true } := by
    unfold record
    rw [h.isPublished]
    rfl
  obtain ⟨httpEngine, pool, heq, -⟩ := cancel_eq (record s) connectionCancelled
  rw [heq, hrecord]
  refine ⟨h.isPublished, h.cancelledUnchecked, ?_⟩
  intro hbody
  have hbody : (s.executor.userResponse.bind Response.body).isSome = true := hbody
  show (s.streamClosed || (s.executor.userResponse.bind Response.body).isSome) = true
  rw [hbody, Bool.or_true]

/-! ## Every section -/

theorem live_onIdle (h : Live s) (hengine : s.executor.httpEngine = some engine) :
    Live (s.setEngine (engine.onIdle p)) := by
  have hcancelled := h.engine engine hengine
  unfold HttpEngine.onIdle
  split
  · exact h.setEngine { engine with connectionInternal := none } hcancelled
  · exact h.setEngine engine hcancelled

/-- Each step keeps the invariant. -/
theorem step_inv (h : Inv s) (hstep : step poco context s action = some s') : Inv s' := by
  unfold step at hstep
  rcases h with h | h
  -- before the publication: each section is one lemma, and `publish` ends the phase
  · split at hstep <;> cases hstep
    · exact .inl (live_cancel h _)
    · rename_i hengine
      exact .inl (live_onIdle h hengine)
    · exact .inl (h.setPool _)
    · exact .inl (live_createEngine h _ _)
    · rename_i hengine
      exact .inl (live_checkCache h (h.engine _ hengine) _)
    · rename_i hengine
      exact .inl (live_start h (h.engine _ hengine) _)
    · exact .inl (live_findAndReuseConnection h)
    · exact .inl (live_createConnection h _ _)
    · rename_i hengine
      exact .inl (live_installConnection h (h.engine _ hengine))
    · exact .inl (live_sendRequest h _)
    · rename_i hengine
      exact .inl (live_checkAfterConnect h (h.engine _ hengine))
    · exact .inl (live_receiveResponse h _ _)
    · rename_i hengine
      exact .inl (live_takeConnectionInternal h (h.engine _ hengine) _)
    · rename_i hengine
      exact .inl (live_handle h (h.engine _ hengine) _ _)
    · exact .inl (live_createUserResponse h _)
    · rename_i hstage
      exact .inl (live_checkRetry h hstage)
    · rename_i hstage
      exact .inl (live_redirect h hstage _)
    · rename_i hstage
      exact .inr (published_publish h hstage)
    · rename_i hstage
      have hnot := h.notPublished
      rw [hstage] at hnot
      cases hnot
  · -- what is left is another `cancel`, changes of the pool, and the return
    have hpublished := h.isPublished
    split at hstep <;> cases hstep
    case h_1 => exact .inr (published_cancel h _)
    case h_2 => exact .inr ⟨h.isPublished, h.cancelledUnchecked, h.streamClosed⟩
    case h_3 => exact .inr ⟨h.isPublished, h.cancelledUnchecked, h.streamClosed⟩
    case h_19 => exact .inr ⟨rfl, h.cancelledUnchecked, h.streamClosed⟩
    all_goals
      have hstage := ‹s.stage = _›
      rw [hstage] at hpublished
      cases hpublished

/-! ## Runs -/

/-- The return is the one step at which anything can show. -/
theorem notMissed_step (h : Inv s) (action : Action) :
    NotMissed s action ↔ CheckedLast s action := by
  unfold NotMissed CheckedLast
  by_cases hreturns : s.returnsBody = true
  · have hstage : s.stage = .published := by
      unfold System.returnsBody at hreturns
      split at hreturns
      · assumption
      · cases hreturns
    have hbody : (s.executor.userResponse.bind Response.body).isSome = true := by
      unfold System.returnsBody at hreturns
      rw [hstage] at hreturns
      exact hreturns
    rcases h with h | h
    · have hnot := h.notPublished
      rw [hstage] at hnot
      cases hnot
    · rw [h.cancelledUnchecked, h.streamClosed hbody]
  · constructor
    · intro _ _ hbody
      exact absurd hbody hreturns
    · intro _ _ hbody
      exact absurd hbody hreturns

/-- In a run of any length, with any number of redirects, the effect of no `cancel` is missing at
the return exactly if none has come between the last check and the publication, unless another one
has come after it. -/
theorem notMissed_iff (poco : Poco) (context : Context) (request : Request)
    (pool : ConnectionPoolInternal) (headers : HeaderStore) (actions : List Action) :
    Runs.EveryStep (step poco context) NotMissed (System.init request pool headers) actions ↔
      Runs.EveryStep (step poco context) CheckedLast (System.init request pool headers)
        actions := by
  have hinit : Inv (System.init request pool headers) := .inl (live_init request pool headers)
  refine Runs.everyStep_congr (C := CheckedLast) ?_ ?_ hinit
  · intro s action s' h _ hstep
    exact step_inv h hstep
  · intro s action h
    exact notMissed_step h action

/-! ### A response from the cache -/

/-- A response stored at second 0 that is fresh for an hour. -/
def freshMetadata : HttpCacheMetadata where
  key := "key"
  url := "http://a.com/"
  httpMethod := .get
  statusCode := 200
  statusMessage := "OK"
  responseHeaders :=
    some (Headers.empty.addNamed HeaderNames.CacheControl "max-age=3600" (by decide))
  responseBodySize := 3
  sentRequestAtEpoch := 0
  receivedResponseAtEpoch := 0

/-- It is found ten seconds later. -/
def findsFresh : Surroundings where
  cancelled := false
  nowAtEpoch := 10
  metadata := some freshMetadata
  dataStream := true
  network := .error (.poco "No network")
  readAll := .ok ()

/-- `cancel` comes after the lookup. -/
def missedRun : List Action :=
  [.createEngine 1, .checkCache findsFresh, .cancel true, .checkRetry, .publish, .finish]

/-- The response comes with an open stream. -/
theorem cancel_missed :
    let context : Context := ⟨⟨none, "", "", 60⟩, true, true⟩
    let start := System.init ⟨.get, "http://host/", none, 0, {}, none⟩
      (ConnectionPoolInternal.create 10 60) ⟨[Headers.empty]⟩
    (Runs.run (step Poco.plain context) start missedRun).map (fun s => s.streamClosed) =
        some false ∧
      ¬ Runs.EveryStep (step Poco.plain context) NotMissed start missedRun := by
  decide +kernel

end EasyHttp.ExecutionCancel
