import EasyHttp.Engine.ExecutionCancelTheorems
import EasyHttp.Library.Reaches

/-!
# An execution among other threads, and the same one alone

`HttpRequestExecutor.executeWithRetry` is the loop with nobody else about, and `step` takes its
sections among the sections of other threads. What the sections have still to do is, at each of
them, the rest of the loop; what the surroundings are to answer is read off the run, from its end.

* `Point`: where the loop stands, and `Point.rest`: what it has still to do;
* `section_step`: a section leaves the rest as it was, or does what comes first in it;
* `refines_executeWithRetry`: a run that ends, ends as the loop does.
-/

namespace EasyHttp.ExecutionCancel

open Exec

/-! ## The rest of the loop -/

/-- Where `executeWithRetry` stands. -/
inductive Point where
  | creating (currentRequest : Request)
  | executing (userRequest : Request)
  | sending (userRequest : Request) (cacheResponse : Option Response) (networkRequest : Request)
  | answering (userRequest : Request) (cacheResponse : Option Response) (networkResponse : Response)
  | executed (userResponse : Response)
  | redirecting (retryRequest : Request)
  | returned (userResponse : Response)
  | thrown (e : HttpException)

/-- What the sections of a system are about to do. -/
def System.point (s : System) : Option Point :=
  match s.stage with
  | .creating currentRequest => some (.creating currentRequest)
  | .checkingCache => s.executor.httpEngine.map fun engine => .executing engine.userRequest
  | .starting networkRequest _ | .catching networkRequest _ _ | .handling networkRequest _ _ _ =>
    s.executor.httpEngine.map fun engine =>
      .sending engine.userRequest engine.cacheResponse networkRequest
  | .finding attempt | .connecting attempt | .installing attempt _ | .sending attempt
  | .sent attempt | .receiving attempt =>
    s.executor.httpEngine.map fun engine =>
      .sending engine.userRequest engine.cacheResponse attempt.networkRequest
  | .received networkResponse =>
    s.executor.httpEngine.map fun engine =>
      .answering engine.userRequest engine.cacheResponse networkResponse
  | .answered userResponse => some (.executed userResponse)
  | .redirecting _ retryRequest => some (.redirecting retryRequest)
  | .publishing userResponse => some (.returned userResponse)
  | .published => s.executor.userResponse.map .returned
  | .returned response => response.map .returned
  | .thrown e => some (.thrown e)

section
variable (poco : Poco) (hasCache : Bool) (env : ℕ → Surroundings)

/-- The rest of a round, after `execute` of its engine. -/
def afterExecute (retryCount : ℕ) (userResponse : Response) :
    Exec HttpException HeaderStore Response := do
  match ← HttpEngine.getRetryRequest poco userResponse with
  | some retryRequest =>
    Exec.lift (env retryCount).readAll
    HttpRequestExecutor.retryLoop poco hasCache env
      (HttpRequestExecutor.MaxRetryCount - retryCount) (retryCount + 1) retryRequest
  | none => return userResponse

/-- The rest of a round, after the response of the network. -/
def afterReceive (retryCount : ℕ) (userRequest : Request) (cacheResponse : Option Response)
    (networkResponse : Response) : Exec HttpException HeaderStore Response := do
  let s ← Exec.getState
  let userResponse ← Exec.lift (HttpEngine.createUserResponse poco hasCache (env retryCount)
    userRequest cacheResponse networkResponse s)
  afterExecute poco hasCache env retryCount userResponse

/-- What the loop has still to do in its round `retryCount`. -/
def Point.rest (retryCount : ℕ) : Point → Exec HttpException HeaderStore Response
  | .creating currentRequest =>
    HttpRequestExecutor.retryLoop poco hasCache env
      (HttpRequestExecutor.MaxRetryCount + 1 - retryCount) retryCount currentRequest
  | .executing userRequest => do
    let userResponse ← HttpEngine.execute poco hasCache (env retryCount) userRequest
    afterExecute poco hasCache env retryCount userResponse
  | .sending userRequest cacheResponse networkRequest => do
    let networkResponse ← Exec.lift
      (HttpEngine.sendRequestAndReceiveResponseWithRetryByConnection poco (env retryCount)
        networkRequest)
    afterReceive poco hasCache env retryCount userRequest cacheResponse networkResponse
  | .answering userRequest cacheResponse networkResponse =>
    afterReceive poco hasCache env retryCount userRequest cacheResponse networkResponse
  | .executed userResponse => afterExecute poco hasCache env retryCount userResponse
  | .redirecting retryRequest => do
    Exec.lift (env retryCount).readAll
    HttpRequestExecutor.retryLoop poco hasCache env
      (HttpRequestExecutor.MaxRetryCount - retryCount) (retryCount + 1) retryRequest
  | .returned userResponse => return userResponse
  | .thrown e => throw e

/-- How the loop ends, and the headers that it leaves. -/
def System.outcome (s : System) : Option (Except HttpException Response × HeaderStore) :=
  s.point.map fun point => exec (point.rest poco hasCache env s.retryCount) s.headers

end

section
variable {poco : Poco} {hasCache : Bool} {env env' : ℕ → Surroundings} {k : ℕ}

/-- The loop asks for the surroundings of its rounds only. -/
theorem retryLoop_congr (rounds : ℕ) (request : Request) (h : ∀ i, k ≤ i → env i = env' i) :
    HttpRequestExecutor.retryLoop poco hasCache env rounds k request =
      HttpRequestExecutor.retryLoop poco hasCache env' rounds k request := by
  induction rounds generalizing k request with
  | zero => rfl
  | succ rounds ih =>
    unfold HttpRequestExecutor.retryLoop
    rw [h k le_rfl]
    refine congrArg _ (funext fun result => ?_)
    rcases result with ⟨userResponse, _ | retryRequest⟩
    · rfl
    · exact ih retryRequest fun i hi => h i (by omega)

theorem afterExecute_congr (userResponse : Response) (hread : (env k).readAll = (env' k).readAll)
    (hlater : ∀ i, k < i → env i = env' i) :
    afterExecute poco hasCache env k userResponse =
      afterExecute poco hasCache env' k userResponse := by
  unfold afterExecute
  rw [hread]
  refine congrArg _ (funext fun retryRequest => ?_)
  cases retryRequest with
  | none => rfl
  | some retryRequest =>
    exact congrArg (Exec.lift (env' k).readAll >>= ·)
      (funext fun _ => retryLoop_congr _ _ fun i hi => hlater i hi)

theorem afterReceive_congr (userRequest : Request) (cacheResponse : Option Response)
    (networkResponse : Response) (hstream : (env k).dataStream = (env' k).dataStream)
    (hread : (env k).readAll = (env' k).readAll) (hlater : ∀ i, k < i → env i = env' i) :
    afterReceive poco hasCache env k userRequest cacheResponse networkResponse =
      afterReceive poco hasCache env' k userRequest cacheResponse networkResponse := by
  have hcreate (s : HeaderStore) : HttpEngine.createUserResponse poco hasCache (env k) userRequest
      cacheResponse networkResponse s = HttpEngine.createUserResponse poco hasCache (env' k)
        userRequest cacheResponse networkResponse s := by
    unfold HttpEngine.createUserResponse HttpEngine.createUserResponseFromCacheResponse
      HttpEngine.createResponseBodyFromCache
    rw [hstream]
  unfold afterReceive
  refine congrArg _ (funext fun s => ?_)
  rw [hcreate]
  exact congrArg _ (funext fun userResponse => afterExecute_congr userResponse hread hlater)

/-- The loop is a round and what comes after it. -/
theorem exec_retryLoop (hk : k ≤ HttpRequestExecutor.MaxRetryCount) (request : Request)
    (headers : HeaderStore) :
    exec (HttpRequestExecutor.retryLoop poco hasCache env
        (HttpRequestExecutor.MaxRetryCount + 1 - k) k request) headers =
      if (env k).cancelled then (.error (.execution "http request is cancelled."), headers)
      else exec ((Point.executing request).rest poco hasCache env k) headers := by
  have hrounds : HttpRequestExecutor.MaxRetryCount + 1 - k =
      (HttpRequestExecutor.MaxRetryCount - k) + 1 := by omega
  rw [hrounds]
  unfold HttpRequestExecutor.retryLoop HttpRequestExecutor.hop
  cases hcancelled : (env k).cancelled with
  | true => rfl
  | false =>
    rw [if_neg Bool.false_ne_true]
    unfold Point.rest afterExecute
    simp only [exec_bind, Bool.false_eq_true, if_false]
    rcases exec (HttpEngine.execute poco hasCache (env k) request) headers with ⟨executed, headers'⟩
    cases executed with
    | error e => rfl
    | ok userResponse =>
      dsimp only
      rcases exec (HttpEngine.getRetryRequest poco userResponse) headers' with ⟨retry, headers''⟩
      cases retry with
      | error e => rfl
      | ok retryRequest =>
        cases retryRequest with
        | none => rfl
        | some retryRequest =>
          dsimp only
          cases (env k).readAll <;> rfl

/-- The surroundings with others in round `k`. -/
def setRound (env : ℕ → Surroundings) (k : ℕ) (round : Surroundings) : ℕ → Surroundings :=
  Function.update env k round

theorem setRound_self {round : Surroundings} : setRound env k round k = round :=
  Function.update_self ..

theorem setRound_later {round : Surroundings} : ∀ i, k < i → setRound env k round i = env i :=
  fun _ hi => Function.update_of_ne (by omega) ..

/-- An engine is not asked whether it was cancelled before it was made. -/
theorem executing_setRound (cancelled : Bool) (request : Request) :
    (Point.executing request).rest poco hasCache
        (setRound env k { env k with cancelled := cancelled }) k =
      (Point.executing request).rest poco hasCache env k := by
  unfold Point.rest
  rw [setRound_self]
  refine congrArg (HttpEngine.execute poco hasCache (env k) request >>= ·)
    (funext fun userResponse => afterExecute_congr userResponse ?_ setRound_later)
  rw [setRound_self]

theorem exec_sending_error {userRequest networkRequest : Request} {cacheResponse : Option Response}
    {headers : HeaderStore} {e : HttpException}
    (h : HttpEngine.sendRequestAndReceiveResponseWithRetryByConnection poco (env k) networkRequest =
      .error e) :
    exec ((Point.sending userRequest cacheResponse networkRequest).rest poco hasCache env k)
      headers = (.error e, headers) := by
  refine exec_bind_error ?_
  rw [exec_lift, h]

theorem exec_sending_ok {userRequest networkRequest : Request} {cacheResponse : Option Response}
    {headers : HeaderStore} {networkResponse : Response}
    (h : HttpEngine.sendRequestAndReceiveResponseWithRetryByConnection poco (env k) networkRequest =
      .ok networkResponse) :
    exec ((Point.sending userRequest cacheResponse networkRequest).rest poco hasCache env k)
      headers = exec ((Point.answering userRequest cacheResponse networkResponse).rest poco hasCache
        env k) headers := by
  refine exec_bind_ok ?_
  rw [exec_lift, h]

/-- A round is its check, and what comes after the check. -/
theorem exec_executing {request : Request} {headers headers' : HeaderStore}
    {check : HttpEngine.CacheCheck}
    (hcheck : exec (HttpEngine.checkCacheBeforeSendRequest poco hasCache (env k) request) headers =
      (.ok check, headers')) :
    exec ((Point.executing request).rest poco hasCache env k) headers =
      exec (HttpEngine.executeAfterCheck poco hasCache (env k) request check >>=
        afterExecute poco hasCache env k) headers' := by
  unfold Point.rest HttpEngine.execute
  rw [exec_bind, exec_bind_ok hcheck, ← exec_bind]

/-- What goes to the network does not depend on the stored body. -/
theorem exec_checkCache_congr {round round' : Surroundings} {request : Request}
    {headers headers' : HeaderStore} {check : HttpEngine.CacheCheck}
    (h : exec (HttpEngine.checkCacheBeforeSendRequest poco hasCache round request) headers =
      (.ok check, headers'))
    (hnone : check.userResponse = none) (hmetadata : round'.metadata = round.metadata)
    (hnow : round'.nowAtEpoch = round.nowAtEpoch) :
    exec (HttpEngine.checkCacheBeforeSendRequest poco hasCache round' request) headers =
      (.ok check, headers') := by
  unfold HttpEngine.checkCacheBeforeSendRequest at h ⊢
  rw [exec_bind_ok (exec_getState headers)] at h ⊢
  split at h
  · rename_i havailable
    rw [if_pos havailable]
    exact h
  · rename_i havailable
    rw [if_neg havailable, hmetadata, hnow]
    rw [exec_bind] at h ⊢
    -- only the body of the stored response is read after the strategy
    rcases hstrategy : exec (HttpCacheInternal.createCacheStrategy poco request round.metadata
      round.nowAtEpoch) headers with ⟨result, headers₁⟩
    rw [hstrategy] at h
    cases result with
    | error e => exact h
    | ok cacheStrategy =>
      dsimp only at h ⊢
      cases hnetwork : cacheStrategy.networkRequest with
      | some networkRequest =>
        rw [hnetwork] at h
        exact h
      | none =>
        rw [hnetwork] at h
        cases hcache : cacheStrategy.cacheResponse with
        | none =>
          rw [hcache] at h
          exact h
        | some cacheResponse =>
          rw [hcache] at h
          -- the stored response is the answer
          dsimp only at h
          rw [exec_bind, exec_lift] at h
          cases hcreate : HttpEngine.createUserResponseFromCacheResponse round request cacheResponse
            none with
          | error e =>
            rw [hcreate] at h
            cases h
          | ok userResponse =>
            rw [hcreate] at h
            cases h
            cases hnone

end

/-! ## What the sections do of it -/

/-- The attempt that is made. -/
def Stage.attempt? : Stage → Option Attempt
  | finding attempt | connecting attempt | installing attempt _ | sending attempt | sent attempt
  | receiving attempt => some attempt
  | _ => none

/-- The exception that a handler has. -/
def Stage.caught? : Stage → Option (Request × Bool × HttpException)
  | catching networkRequest connectionReused e | handling networkRequest connectionReused e _ =>
    some (networkRequest, connectionReused, e)
  | _ => none

/-- `executeWithRetry` has thrown. -/
def Stage.isThrown : Stage → Bool
  | thrown _ => true
  | _ => false

/-- What a cancelled execution throws. -/
def cancelledException : HttpException := .execution "Http request is cancelled."

/-- An exception that a handler has is one that sending alone can throw, or comes of a `cancel`. -/
structure Caught (poco : Poco) (cancelled : Bool) (networkRequest : Request)
    (connectionReused : Bool) (e : HttpException) : Prop where
  thrown : (∃ env, HttpEngine.sendRequestAndReceiveResponseWithRetryByConnection poco env
    networkRequest = .error e) ∨ e = cancelledException ∧ cancelled = true
  reused : connectionReused = true → ∃ uri, poco.uri networkRequest.url = .ok uri

/-- What is known where the thread stands. -/
structure Stage.Valid (poco : Poco) (retryCount : ℕ) (cancelled : Bool) (stage : Stage) : Prop where
  count : retryCount ≤ HttpRequestExecutor.MaxRetryCount ∨ ∃ e, stage = thrown e
  attempt : ∀ attempt, stage.attempt? = some attempt →
    poco.uri attempt.networkRequest.url = .ok attempt.uri
  caught : ∀ networkRequest connectionReused e,
    stage.caught? = some (networkRequest, connectionReused, e) →
      Caught poco cancelled networkRequest connectionReused e

/-- The call was cancelled, and has found out. -/
structure Stopped (s : System) : Prop where
  stage_eq : s.stage = .thrown cancelledException
  cancelled : s.executor.cancelled = true

/-- However the loop ends from `s'`, so it may from `s`. -/
def Simulates (poco : Poco) (hasCache : Bool) (s s' : System) : Prop :=
  ∀ env', ∃ env, s.outcome poco hasCache env = s'.outcome poco hasCache env'

/-- What a section keeps. -/
structure Section (poco : Poco) (hasCache : Bool) (s s' : System) : Prop where
  valid : s'.stage.Valid poco s'.retryCount s'.executor.cancelled
  simulates : Stopped s' ∨ Simulates poco hasCache s s'

section
variable {poco : Poco} {context : Context} {s s' : System} {stage : Stage} {engine : HttpEngine}
  {attempt : Attempt} {networkRequest retryRequest currentRequest : Request}
  {userResponse networkResponse : Response} {e : HttpException} {p : ConnectionPtr}

theorem retryCount_le {retryCount : ℕ}
    (hcount : retryCount ≤ HttpRequestExecutor.MaxRetryCount ∨ ∃ e, stage = .thrown e)
    (hnot : stage.isThrown = false) : retryCount ≤ HttpRequestExecutor.MaxRetryCount := by
  rcases hcount with hle | ⟨e, rfl⟩
  · exact hle
  · cases hnot

/-- A stage where nothing is known. -/
theorem Stage.Valid.of_none {retryCount : ℕ} {cancelled : Bool}
    (hcount : retryCount ≤ HttpRequestExecutor.MaxRetryCount ∨ ∃ e, stage = thrown e)
    (hattempt : stage.attempt? = none) (hcaught : stage.caught? = none) :
    stage.Valid poco retryCount cancelled := by
  refine ⟨hcount, fun attempt h => ?_, fun _ _ _ h => ?_⟩
  · rw [hattempt] at h
    cases h
  · rw [hcaught] at h
    cases h

/-- After an exception nothing is asked for. -/
theorem Stage.Valid.thrown {retryCount : ℕ} {cancelled : Bool} :
    (Stage.thrown e).Valid poco retryCount cancelled := .of_none (.inr ⟨e, rfl⟩) rfl rfl

/-- A stage with an attempt is valid if its URL is that of the attempt. -/
theorem Stage.Valid.of_attempt {retryCount : ℕ} {cancelled : Bool}
    (hcount : retryCount ≤ HttpRequestExecutor.MaxRetryCount)
    (hattempt : stage.attempt? = some attempt) (hcaught : stage.caught? = none)
    (huri : poco.uri attempt.networkRequest.url = .ok attempt.uri) :
    stage.Valid poco retryCount cancelled := by
  refine ⟨.inl hcount, fun attempt' h => ?_, fun _ _ _ h => ?_⟩
  · rw [hattempt] at h
    cases h
    exact huri
  · rw [hcaught] at h
    cases h

/-- A stage of the handlers is valid if its exception is one that they catch. -/
theorem Stage.Valid.of_caught {retryCount : ℕ} {cancelled connectionReused : Bool}
    (hcount : retryCount ≤ HttpRequestExecutor.MaxRetryCount)
    (hattempt : stage.attempt? = none)
    (hcaught : stage.caught? = some (networkRequest, connectionReused, e))
    (h : Caught poco cancelled networkRequest connectionReused e) :
    stage.Valid poco retryCount cancelled := by
  refine ⟨.inl hcount, fun attempt' h => ?_, fun _ _ _ h' => ?_⟩
  · rw [hattempt] at h
    cases h
  · rw [hcaught] at h'
    cases h'
    exact h

/-- Where no request is invalid, an attempt may throw anything. -/
theorem Caught.of_uri {cancelled connectionReused : Bool} {uri : Uri}
    (huri : poco.uri networkRequest.url = .ok uri) :
    Caught poco cancelled networkRequest connectionReused e := by
  refine ⟨.inl ⟨⟨false, 0, none, false, .error e, .ok ()⟩, ?_⟩, fun _ => ⟨uri, huri⟩⟩
  unfold HttpEngine.sendRequestAndReceiveResponseWithRetryByConnection
  rw [huri]
  rfl

namespace Simulates

variable {hasCache : Bool}

/-- A section that leaves the rest as it was. -/
theorem of_eq (hpoint : s'.point = s.point) (hcount : s'.retryCount = s.retryCount)
    (hheaders : s'.headers = s.headers) : Simulates poco hasCache s s' := by
  intro env
  refine ⟨env, ?_⟩
  unfold System.outcome
  rw [hpoint, hcount, hheaders]

/-- A section that does something of the rest. -/
theorem of_rest {point point' : Point} (hpoint : s.point = some point)
    (hpoint' : s'.point = some point')
    (h : ∀ env', ∃ env, exec (point.rest poco hasCache env s.retryCount) s.headers =
      exec (point'.rest poco hasCache env' s'.retryCount) s'.headers) :
    Simulates poco hasCache s s' := by
  intro env'
  obtain ⟨env, henv⟩ := h env'
  refine ⟨env, ?_⟩
  unfold System.outcome
  rw [hpoint, hpoint', Option.map_some, Option.map_some, henv]

end Simulates

/-- The exception of a handler goes to the caller. -/
theorem section_thrown {hasCache connectionReused : Bool} {request : Request}
    {cacheResponse : Option Response}
    (hpoint : s.point = some (.sending request cacheResponse networkRequest))
    (hcaught : Caught poco s.executor.cancelled networkRequest connectionReused e) :
    Section poco hasCache s (s.goTo (.thrown e)) := by
  refine ⟨.thrown, ?_⟩
  obtain ⟨round, hround⟩ | ⟨rfl, hcancelled⟩ := hcaught.thrown
  · right
    refine .of_rest hpoint rfl fun env' => ?_
    refine ⟨setRound env' s.retryCount { env' s.retryCount with network := round.network },
      exec_sending_error ?_⟩
    rw [setRound_self]
    exact hround
  · exact .inl ⟨rfl, hcancelled⟩

/-- The engine of a round is made in both executions. -/
theorem section_createEngine {hasCache : Bool} (hstage : s.stage = .creating currentRequest)
    (hcount : s.retryCount ≤ HttpRequestExecutor.MaxRetryCount) (address : ListenerPtr) :
    Section poco hasCache s (createEngine s currentRequest address) := by
  have hpoint : s.point = some (.creating currentRequest) := by
    rw [System.point, hstage]
  unfold createEngine
  cases hcancelled : s.executor.cancelled with
  | true =>
    rw [if_pos rfl]
    refine ⟨.thrown, .inr (.of_rest hpoint rfl fun env' => ?_)⟩
    refine ⟨setRound env' s.retryCount { env' s.retryCount with cancelled := true }, ?_⟩
    show exec (HttpRequestExecutor.retryLoop _ _ _ _ _ _) _ = _
    rw [exec_retryLoop hcount, setRound_self]
    rfl
  | false =>
    rw [if_neg Bool.false_ne_true]
    have hdestroy : (destroyEngine s).retryCount = s.retryCount ∧
        (destroyEngine s).headers = s.headers := by
      unfold destroyEngine
      split <;> exact ⟨rfl, rfl⟩
    refine ⟨.of_none (.inl ?_) rfl rfl, .inr (.of_rest hpoint rfl fun env' => ?_)⟩
    · show (destroyEngine s).retryCount ≤ _
      rw [hdestroy.1]
      exact hcount
    · refine ⟨setRound env' s.retryCount { env' s.retryCount with cancelled := false }, ?_⟩
      show exec (HttpRequestExecutor.retryLoop _ _ _ _ _ _) _ =
        exec (Point.rest _ _ _ (destroyEngine s).retryCount _) (destroyEngine s).headers
      rw [exec_retryLoop hcount, setRound_self, if_neg Bool.false_ne_true, executing_setRound,
        hdestroy.1, hdestroy.2]

theorem section_checkCache (hstage : s.stage = .checkingCache)
    (hengine : s.executor.httpEngine = some engine)
    (hcount : s.retryCount ≤ HttpRequestExecutor.MaxRetryCount) (round : Surroundings) :
    Section poco context.hasCache s (checkCacheBeforeSendRequest poco context s engine round) := by
  have hpoint : s.point = some (.executing engine.userRequest) := by
    rw [System.point, hstage]
    dsimp only
    rw [hengine]
    rfl
  unfold checkCacheBeforeSendRequest
  rcases hcheck : exec (HttpEngine.checkCacheBeforeSendRequest poco context.hasCache round
    engine.userRequest) s.headers with ⟨result, headers⟩
  cases result with
  -- the exception of the check is that of the execution alone
  | error e =>
    refine ⟨.thrown, .inr (.of_rest hpoint rfl fun env' => ?_)⟩
    refine ⟨setRound env' s.retryCount round, ?_⟩
    unfold Point.rest HttpEngine.execute
    rw [setRound_self]
    exact exec_bind_error (exec_bind_error hcheck)
  | ok check =>
    dsimp only
    cases hresponse : check.userResponse with
    -- the cache answers: the round ends without a request
    | some userResponse =>
      refine ⟨.of_none (.inl hcount) rfl rfl, .inr (.of_rest hpoint rfl fun env' => ?_)⟩
      let round' : Surroundings := { round with readAll := (env' s.retryCount).readAll }
      refine ⟨setRound env' s.retryCount round', ?_⟩
      rw [exec_executing (by rw [setRound_self]; exact hcheck)]
      unfold HttpEngine.executeAfterCheck
      rw [hresponse]
      have hcongr : afterExecute poco context.hasCache (setRound env' s.retryCount round')
          s.retryCount userResponse =
            afterExecute poco context.hasCache env' s.retryCount userResponse :=
        afterExecute_congr userResponse (by rw [setRound_self]) setRound_later
      exact congrArg (fun x => exec x headers) hcongr
    | none =>
      cases hrequest : check.networkRequest with
      -- a request is sent, and the stored response is kept for the answer
      | some networkRequest =>
        refine ⟨.of_none (.inl hcount) rfl rfl, .inr (.of_rest hpoint rfl fun env' => ?_)⟩
        let round' : Surroundings := { env' s.retryCount with
          metadata := round.metadata, nowAtEpoch := round.nowAtEpoch }
        refine ⟨setRound env' s.retryCount round', ?_⟩
        have hcheck' : exec (HttpEngine.checkCacheBeforeSendRequest poco context.hasCache
            (setRound env' s.retryCount round' s.retryCount) engine.userRequest) s.headers =
              (.ok check, headers) := by
          rw [setRound_self]
          exact exec_checkCache_congr hcheck hresponse rfl rfl
        rw [exec_executing hcheck', setRound_self]
        unfold HttpEngine.executeAfterCheck
        rw [hresponse, hrequest]
        have hsame : HttpEngine.sendRequestAndReceiveResponseWithRetryByConnection poco round'
            networkRequest = HttpEngine.sendRequestAndReceiveResponseWithRetryByConnection poco
              (env' s.retryCount) networkRequest := rfl
        dsimp only
        rw [hsame]
        show _ = exec ((Point.sending engine.userRequest check.cacheResponse networkRequest).rest
          poco context.hasCache env' s.retryCount) headers
        cases hsend : HttpEngine.sendRequestAndReceiveResponseWithRetryByConnection poco
          (env' s.retryCount) networkRequest with
        | error e =>
          rw [exec_sending_error hsend]
          rfl
        | ok networkResponse =>
          rw [exec_sending_ok hsend]
          have hcongr : afterReceive poco context.hasCache (setRound env' s.retryCount round')
              s.retryCount engine.userRequest check.cacheResponse networkResponse =
                afterReceive poco context.hasCache env' s.retryCount engine.userRequest
                  check.cacheResponse networkResponse :=
            afterReceive_congr _ _ _ (by rw [setRound_self]) (by rw [setRound_self]) setRound_later
          refine Eq.trans ?_ (congrArg (fun x => exec x headers) hcongr)
          unfold afterReceive
          rw [exec_bind, exec_bind_ok (exec_lift _ _), exec_bind_ok (exec_getState _), exec_lift,
            exec_bind_ok (exec_getState _), exec_bind, exec_lift, setRound_self]
      | none =>
        refine ⟨.thrown, .inr (.of_rest hpoint rfl fun env' => ?_)⟩
        refine ⟨setRound env' s.retryCount round, ?_⟩
        rw [exec_executing (by rw [setRound_self]; exact hcheck)]
        unfold HttpEngine.executeAfterCheck
        rw [hresponse, hrequest]
        rfl

/-- What the engine is for, and what it has found in the cache. -/
def System.asked (s : System) : Option (Request × Option Response) :=
  s.executor.httpEngine.map fun engine => (engine.userRequest, engine.cacheResponse)

/-- The engine is asked for its own request. -/
theorem asked_eq (hengine : s.executor.httpEngine = some engine) :
    s.asked = some (engine.userRequest, engine.cacheResponse) := by
  rw [System.asked, hengine]
  rfl

/-- The point while a request is on its way. -/
theorem point_asked {request : Request}
    (hstage : s.stage.attempt?.map Attempt.networkRequest = some request ∨
      s.stage.caught?.map (·.1) = some request ∨ ∃ force, s.stage = .starting request force) :
    s.point = s.asked.map fun asked => .sending asked.1 asked.2 request := by
  unfold System.point System.asked
  rw [Option.map_map]
  rcases hstage with h | h | ⟨force, h⟩
  · cases hs : s.stage <;> rw [hs] at h <;> cases h <;> rfl
  · cases hs : s.stage <;> rw [hs] at h <;> cases h <;> rfl
  · rw [h]
    rfl

/-- While a request is sent the lone execution is at the sending. -/
theorem point_sending {request : Request} (hengine : s.executor.httpEngine = some engine)
    (hstage : s.stage.attempt?.map Attempt.networkRequest = some request ∨
      s.stage.caught?.map (·.1) = some request ∨ ∃ force, s.stage = .starting request force) :
    s.point = some (.sending engine.userRequest engine.cacheResponse request) := by
  rw [point_asked hstage, asked_eq hengine]
  rfl

theorem section_start {force : Bool} (hlive : Live s)
    (hstage : s.stage = .starting networkRequest force)
    (hengine : s.executor.httpEngine = some engine)
    (hcount : s.retryCount ≤ HttpRequestExecutor.MaxRetryCount) :
    Section poco context.hasCache s (start poco context s engine networkRequest force) := by
  have hpoint : s.point = some (.sending engine.userRequest engine.cacheResponse networkRequest) :=
    point_sending hengine (.inr (.inr ⟨force, hstage⟩))
  unfold start
  cases hcancelled : engine.cancelled with
  -- the engine was cancelled: what is thrown goes to the handlers
  | true =>
    rw [if_pos rfl]
    have hexecutor : s.executor.cancelled = true := by
      rw [← hlive.engine engine hengine, hcancelled]
    refine ⟨.of_caught hcount rfl rfl ⟨.inr ⟨rfl, hexecutor⟩,
      fun h => absurd h Bool.false_ne_true⟩, .inr (.of_eq ?_ rfl rfl)⟩
    rw [hpoint]
    exact point_sending hengine (.inr (.inl rfl))
  | false =>
    rw [if_neg Bool.false_ne_true]
    -- the pool that is chosen plays no part in the result
    have hpool : ∃ pool, chooseConnectionPool context s = { s with pool := pool } := by
      unfold chooseConnectionPool
      split
      · exact ⟨s.pool, rfl⟩
      · exact ⟨_, rfl⟩
    obtain ⟨pool, hpool⟩ := hpool
    rw [hpool]
    dsimp only
    cases huri : poco.uri networkRequest.url with
    -- the execution alone throws for the URL as well
    | error message =>
      refine ⟨.of_caught hcount rfl rfl ⟨.inl ⟨⟨false, 0, none, false, .error cancelledException,
        .ok ()⟩, ?_⟩, fun h => absurd h Bool.false_ne_true⟩, .inr (.of_eq ?_ rfl rfl)⟩
      · unfold HttpEngine.sendRequestAndReceiveResponseWithRetryByConnection
        rw [huri]
      · rw [hpoint]
        exact point_sending hengine (.inr (.inl rfl))
    | ok uri =>
      cases force with
      | true =>
        refine ⟨.of_attempt hcount rfl rfl huri, .inr (.of_eq ?_ rfl rfl)⟩
        rw [hpoint]
        exact point_sending hengine (.inl rfl)
      | false =>
        refine ⟨.of_attempt hcount rfl rfl huri, .inr (.of_eq ?_ rfl rfl)⟩
        rw [hpoint]
        exact point_sending hengine (.inl rfl)

/-- A section of an attempt that goes on with it, or gives an exception to the handlers. -/
theorem section_attempt {hasCache : Bool} {attempt' : Attempt}
    (hattempt : s.stage.attempt? = some attempt)
    (hvalid : s.stage.Valid poco s.retryCount s.executor.cancelled)
    (hcount : s'.retryCount = s.retryCount) (hheaders : s'.headers = s.headers)
    (hasked : s'.asked = s.asked)
    (hrequest : attempt'.networkRequest = attempt.networkRequest)
    (huri : attempt'.uri = attempt.uri)
    (hstage : s'.stage.attempt? = some attempt' ∧ s'.stage.caught? = none ∨
      ∃ connectionReused e, s'.stage.attempt? = none ∧
        s'.stage.caught? = some (attempt.networkRequest, connectionReused, e)) :
    Section poco hasCache s s' := by
  have hle : s'.retryCount ≤ HttpRequestExecutor.MaxRetryCount := by
    rw [hcount]
    rcases hvalid.count with hle | ⟨e, he⟩
    · exact hle
    · rw [he] at hattempt
      cases hattempt
  have hvaliduri := hvalid.attempt attempt hattempt
  have hpoint := point_asked (.inl (congrArg (Option.map Attempt.networkRequest) hattempt))
  have hpoint' : s'.point = s.point := by
    rw [hpoint, ← hasked]
    rcases hstage with ⟨hnext, -⟩ | ⟨_, _, -, hnext⟩
    · exact point_asked (.inl (by rw [hnext, Option.map_some, hrequest]))
    · exact point_asked (.inr (.inl (by rw [hnext, Option.map_some])))
  refine ⟨?_, .inr (.of_eq hpoint' hcount hheaders)⟩
  rcases hstage with ⟨hnext, hnone⟩ | ⟨_, _, hnone, hnext⟩
  · exact .of_attempt hle hnext hnone (by rw [hrequest, huri, hvaliduri])
  · exact .of_caught hle hnone hnext (.of_uri hvaliduri)

section
variable {hasCache : Bool} (hvalid : s.stage.Valid poco s.retryCount s.executor.cancelled)
include hvalid

theorem section_findAndReuseConnection (hstage : s.stage = .finding attempt) :
    Section poco hasCache s (findAndReuseConnection poco context s attempt) := by
  have hattempt : s.stage.attempt? = some attempt := by
    rw [hstage]
    rfl
  unfold findAndReuseConnection
  rcases s.pool.findAndReuseConnection poco attempt.networkRequest.url context.context
    with ⟨p, pool⟩
  cases p with
  | some p =>
    refine section_attempt hattempt hvalid rfl rfl rfl ?_ ?_
      (.inl ⟨rfl, rfl⟩)
    · rfl
    · rfl
  | none =>
    exact section_attempt hattempt hvalid rfl rfl rfl rfl rfl (.inl ⟨rfl, rfl⟩)

theorem section_createConnection (hstage : s.stage = .connecting attempt) (p : ConnectionPtr)
    (sslContext : Except HttpException Unit) :
    Section poco hasCache s (createConnection poco context s attempt p sslContext) := by
  have hattempt : s.stage.attempt? = some attempt := by
    rw [hstage]
    rfl
  unfold createConnection
  cases s.pool.createConnection poco p attempt.networkRequest.url context.context sslContext with
  | error e =>
    exact section_attempt hattempt hvalid rfl rfl rfl rfl rfl (.inr ⟨_, _, rfl, rfl⟩)
  | ok pool =>
    exact section_attempt hattempt hvalid rfl rfl rfl rfl rfl (.inl ⟨rfl, rfl⟩)

theorem section_installConnection (hengine : s.executor.httpEngine = some engine)
    (hstage : s.stage = .installing attempt p) :
    Section poco hasCache s (installConnection s engine attempt p) := by
  have hattempt : s.stage.attempt? = some attempt := by
    rw [hstage]
    rfl
  exact section_attempt hattempt hvalid rfl rfl (asked_eq hengine).symm rfl rfl (.inl ⟨rfl, rfl⟩)

theorem section_sendRequest (hstage : s.stage = .sending attempt)
    (sending : Except HttpException Unit) :
    Section poco hasCache s (sendRequest s attempt sending) := by
  have hattempt : s.stage.attempt? = some attempt := by
    rw [hstage]
    rfl
  cases sending with
  | error e =>
    exact section_attempt hattempt hvalid rfl rfl rfl rfl rfl (.inr ⟨_, _, rfl, rfl⟩)
  | ok a =>
    exact section_attempt hattempt hvalid rfl rfl rfl rfl rfl (.inl ⟨rfl, rfl⟩)

theorem section_checkAfterConnect (hstage : s.stage = .sent attempt) :
    Section poco hasCache s (checkAfterConnect s engine attempt) := by
  have hattempt : s.stage.attempt? = some attempt := by
    rw [hstage]
    rfl
  unfold checkAfterConnect
  split
  · exact section_attempt hattempt hvalid rfl rfl rfl rfl rfl (.inr ⟨_, _, rfl, rfl⟩)
  · exact section_attempt hattempt hvalid rfl rfl rfl rfl rfl (.inl ⟨rfl, rfl⟩)

theorem section_receiveResponse (hengine : s.executor.httpEngine = some engine)
    (hstage : s.stage = .receiving attempt)
    (network : Except HttpException NetworkAnswer) (keepAlive : Bool) :
    Section poco hasCache s (receiveResponse poco s engine attempt network keepAlive) := by
  have hattempt : s.stage.attempt? = some attempt := by
    rw [hstage]
    rfl
  -- a closed connection is removed from the pool, and nothing else
  have hclosed : ∃ pool, removeClosed s engine keepAlive = { s with pool := pool } := by
    unfold removeClosed
    split
    · exact ⟨_, rfl⟩
    · exact ⟨s.pool, rfl⟩
  obtain ⟨pool, hclosed⟩ := hclosed
  unfold receiveResponse
  cases network with
  | error e =>
    exact section_attempt hattempt hvalid rfl rfl rfl rfl rfl (.inr ⟨_, _, rfl, rfl⟩)
  | ok answer =>
    dsimp only
    rw [hclosed]
    cases hreceive : HttpEngine.receiveResponse poco attempt.networkRequest attempt.uri answer with
    | error e =>
      exact section_attempt hattempt hvalid rfl rfl rfl rfl rfl (.inr ⟨_, _, rfl, rfl⟩)
    | ok networkResponse =>
      have hpoint := point_sending hengine
        (.inl (congrArg (Option.map Attempt.networkRequest) hattempt))
      -- the execution alone has received the response and is to answer
      have hpoint' : System.point
          (System.goTo { s with pool := pool } (.received networkResponse)) =
            some (.answering engine.userRequest engine.cacheResponse networkResponse) := by
        show s.executor.httpEngine.map _ = _
        rw [hengine]
        rfl
      have hcount := hvalid.count
      rw [hstage] at hcount
      refine ⟨.of_none (.inl (retryCount_le hcount rfl)) rfl rfl, .inr (.of_rest hpoint hpoint'
        fun env' => ?_)⟩
      let round' : Surroundings := { env' s.retryCount with network := .ok answer }
      refine ⟨setRound env' s.retryCount round', ?_⟩
      -- in that round of its surroundings this is what is received
      have hsend : HttpEngine.sendRequestAndReceiveResponseWithRetryByConnection poco
          (setRound env' s.retryCount round' s.retryCount) attempt.networkRequest =
            .ok networkResponse := by
        rw [setRound_self]
        unfold HttpEngine.sendRequestAndReceiveResponseWithRetryByConnection
        rw [hvalid.attempt attempt hattempt]
        exact hreceive
      rw [exec_sending_ok hsend]
      have hcongr : afterReceive poco hasCache (setRound env' s.retryCount round') s.retryCount
          engine.userRequest engine.cacheResponse networkResponse =
            afterReceive poco hasCache env' s.retryCount engine.userRequest engine.cacheResponse
              networkResponse :=
        afterReceive_congr _ _ _ (by rw [setRound_self]) (by rw [setRound_self]) setRound_later
      exact congrArg (fun x => exec x s.headers) hcongr

end

section
variable {hasCache : Bool} {connectionReused : Bool}
  (hengine : s.executor.httpEngine = some engine)
  (hvalid : s.stage.Valid poco s.retryCount s.executor.cancelled)
include hengine hvalid

theorem section_takeConnectionInternal
    (hstage : s.stage = .catching networkRequest connectionReused e) :
    Section poco hasCache s
      (takeConnectionInternal s engine networkRequest connectionReused e) := by
  have hcaught : Caught poco s.executor.cancelled networkRequest connectionReused e :=
    hvalid.caught _ _ _ (by rw [hstage]; rfl)
  have hpoint : s.point = some (.sending engine.userRequest engine.cacheResponse networkRequest) :=
    point_sending hengine (.inr (.inl (by rw [hstage]; rfl)))
  have hcount := hvalid.count
  rw [hstage] at hcount
  have hhandling (p : ConnectionPtr) : Section poco hasCache s
      ((s.setEngine { engine with connectionInternal := none }).goTo
        (.handling networkRequest connectionReused e p)) := by
    let taken : System := (s.setEngine { engine with connectionInternal := none }).goTo
      (.handling networkRequest connectionReused e p)
    have htaken : taken.executor.httpEngine = some { engine with connectionInternal := none } := rfl
    refine ⟨.of_caught (retryCount_le hcount rfl) rfl rfl hcaught, .inr (.of_eq ?_ rfl rfl)⟩
    rw [hpoint]
    exact (point_sending htaken (.inr (.inl rfl))).trans rfl
  unfold takeConnectionInternal
  split
  · exact section_thrown hpoint hcaught
  · exact section_thrown hpoint hcaught
  · exact hhandling _

/-- The handlers go back for another attempt, or throw what the execution alone throws. -/
theorem section_handle (hstage : s.stage = .handling networkRequest connectionReused e p)
    (reset : Except HttpException Bool) :
    Section poco hasCache s (handle s engine networkRequest connectionReused e p reset) := by
  have hcaught : Caught poco s.executor.cancelled networkRequest connectionReused e :=
    hvalid.caught _ _ _ (by rw [hstage]; rfl)
  have hcount := hvalid.count
  rw [hstage] at hcount
  let removed : System := { s with pool := (s.pool.removeConnection p).2 }
  -- for the execution alone this is still the same attempt
  have hpoint : removed.point =
      some (.sending engine.userRequest engine.cacheResponse networkRequest) :=
    point_sending hengine (.inr (.inl (by show s.stage.caught?.map _ = _; rw [hstage]; rfl)))
  have hsame : s.point = removed.point := by
    rw [hpoint]
    exact point_sending hengine (.inr (.inl (by rw [hstage]; rfl)))
  -- removing the connection is no part of the loop
  have hremoved {s' : System} (h : Section poco hasCache removed s') :
      Section poco hasCache s s' := by
    refine ⟨h.valid, h.simulates.imp_right fun hsim env' => ?_⟩
    obtain ⟨env, henv⟩ := hsim env'
    refine ⟨env, henv ▸ ?_⟩
    unfold System.outcome
    rw [hsame]
  apply hremoved
  unfold handle
  cases e with
  | execution message =>
    dsimp only
    -- a cancelled engine, or a new connection: no second attempt, in neither
    by_cases hretry : (engine.cancelled || !connectionReused) = true
    · rw [if_pos hretry]
      exact section_thrown hpoint hcaught
    · rw [if_neg hretry]
      have hreused : connectionReused = true := by
        cases connectionReused with
        | true => rfl
        | false => simp at hretry
      obtain ⟨uri, huri⟩ := hcaught.reused hreused
      -- another attempt may fail in the same way, whatever the next one does
      have hagain (e' : HttpException) :
          Caught poco s.executor.cancelled networkRequest connectionReused e' := .of_uri huri
      split
      · exact section_thrown hpoint (hagain _)
      · exact section_thrown hpoint (hagain _)
      · refine ⟨.of_none (.inl (retryCount_le hcount rfl)) rfl rfl, .inr (.of_eq ?_ rfl rfl)⟩
        rw [hpoint]
        exact point_sending hengine (.inr (.inr ⟨true, rfl⟩))
  | _ => exact section_thrown hpoint hcaught

theorem section_createUserResponse (hstage : s.stage = .received networkResponse)
    (round : Surroundings) :
    Section poco context.hasCache s
      (createUserResponse poco context s engine networkResponse round) := by
  have hpoint : s.point =
      some (.answering engine.userRequest engine.cacheResponse networkResponse) := by
    rw [System.point, hstage]
    dsimp only
    rw [hengine]
    rfl
  have hcount := hvalid.count
  rw [hstage] at hcount
  -- making the response depends on the stream of the cache only
  have hcreate (round' : Surroundings) (hstream : round'.dataStream = round.dataStream) :
      HttpEngine.createUserResponse poco context.hasCache round' engine.userRequest
        engine.cacheResponse networkResponse s.headers =
          HttpEngine.createUserResponse poco context.hasCache round engine.userRequest
            engine.cacheResponse networkResponse s.headers := by
    unfold HttpEngine.createUserResponse HttpEngine.createUserResponseFromCacheResponse
      HttpEngine.createResponseBodyFromCache
    rw [hstream]
  unfold createUserResponse
  cases hresult : HttpEngine.createUserResponse poco context.hasCache round engine.userRequest
    engine.cacheResponse networkResponse s.headers with
  | error e =>
    -- the exception is that of the execution alone
    refine ⟨.thrown, .inr (.of_rest hpoint rfl fun env' => ?_)⟩
    refine ⟨setRound env' s.retryCount round, ?_⟩
    unfold Point.rest afterReceive
    rw [exec_bind_ok (exec_getState _), setRound_self, hresult]
    rfl
  | ok userResponse =>
    -- the round goes on with the response that both have made
    refine ⟨.of_none (.inl (retryCount_le hcount rfl)) rfl rfl,
      .inr (.of_rest hpoint rfl fun env' => ?_)⟩
    let round' : Surroundings := { env' s.retryCount with dataStream := round.dataStream }
    refine ⟨setRound env' s.retryCount round', ?_⟩
    have hcongr : afterExecute poco context.hasCache (setRound env' s.retryCount round')
        s.retryCount userResponse =
          afterExecute poco context.hasCache env' s.retryCount userResponse :=
      afterExecute_congr userResponse (by rw [setRound_self]) setRound_later
    refine Eq.trans ?_ (congrArg (fun x => exec x s.headers) hcongr)
    unfold Point.rest afterReceive
    rw [exec_bind_ok (exec_getState _), setRound_self, hcreate round' rfl, hresult]
    rfl

end

section
variable {hasCache : Bool} (hvalid : s.stage.Valid poco s.retryCount s.executor.cancelled)
include hvalid

theorem section_checkRetry (hstage : s.stage = .answered userResponse) :
    Section poco hasCache s (checkRetry poco s userResponse) := by
  have hpoint : s.point = some (.executed userResponse) := by
    rw [System.point, hstage]
  have hcount := hvalid.count
  rw [hstage] at hcount
  have hle := retryCount_le hcount rfl
  unfold checkRetry
  rcases hretry : exec (HttpEngine.getRetryRequest poco userResponse) s.headers with
    ⟨result, headers⟩
  cases result with
  | error e =>
    refine ⟨.thrown, .inr (.of_rest hpoint rfl fun env' => ⟨env', ?_⟩)⟩
    unfold Point.rest afterExecute
    exact exec_bind_error hretry
  | ok retryRequest =>
    cases retryRequest with
    | none =>
      refine ⟨.of_none (.inl hle) rfl rfl, .inr (.of_rest hpoint rfl fun env' => ⟨env', ?_⟩)⟩
      unfold Point.rest afterExecute
      exact exec_bind_ok hretry
    | some retryRequest =>
      refine ⟨.of_none (.inl hle) rfl rfl, .inr (.of_rest hpoint rfl fun env' => ⟨env', ?_⟩)⟩
      unfold Point.rest afterExecute
      exact exec_bind_ok hretry

/-- Another round begins as in the execution alone. -/
theorem section_redirect (hstage : s.stage = .redirecting userResponse retryRequest)
    (readAll : Except HttpException Unit) :
    Section poco hasCache s (redirect context s userResponse retryRequest readAll) := by
  have hpoint : s.point = some (.redirecting retryRequest) := by
    rw [System.point, hstage]
  have hcount := hvalid.count
  rw [hstage] at hcount
  have hle := retryCount_le hcount rfl
  -- the result of reading the rest belongs to this round
  have hrest (env' : ℕ → Surroundings) (result : Except HttpException Unit) :
      exec ((Point.redirecting retryRequest).rest poco hasCache
        (setRound env' s.retryCount { env' s.retryCount with readAll := result }) s.retryCount)
          s.headers = match result with
        | .ok () => exec (HttpRequestExecutor.retryLoop poco hasCache env'
            (HttpRequestExecutor.MaxRetryCount - s.retryCount) (s.retryCount + 1) retryRequest)
            s.headers
        | .error e => (.error e, s.headers) := by
    let round' : Surroundings := { env' s.retryCount with readAll := result }
    have hcongr : HttpRequestExecutor.retryLoop poco hasCache (setRound env' s.retryCount round')
        (HttpRequestExecutor.MaxRetryCount - s.retryCount) (s.retryCount + 1) retryRequest =
          HttpRequestExecutor.retryLoop poco hasCache env'
            (HttpRequestExecutor.MaxRetryCount - s.retryCount) (s.retryCount + 1) retryRequest :=
      retryLoop_congr _ _ setRound_later
    unfold Point.rest
    rw [← hcongr, setRound_self]
    cases result <;> rfl
  unfold redirect
  cases hread : (if context.hasCache && userResponse.body.isSome then readAll else .ok ()) with
  | error e =>
    exact ⟨.thrown, .inr (.of_rest hpoint rfl fun env' => ⟨_, hrest env' (.error e)⟩)⟩
  | ok a =>
    dsimp only
    -- one round more, or one too many
    by_cases hmore : s.retryCount + 1 ≤ HttpRequestExecutor.MaxRetryCount
    · rw [if_pos hmore]
      refine ⟨.of_none (.inl hmore) rfl rfl, .inr (.of_rest hpoint rfl fun env' =>
        ⟨_, (hrest env' (.ok ())).trans ?_⟩)⟩
      have hrounds : HttpRequestExecutor.MaxRetryCount - s.retryCount =
          HttpRequestExecutor.MaxRetryCount + 1 - (s.retryCount + 1) := by omega
      rw [hrounds]
      rfl
    · rw [if_neg hmore]
      refine ⟨.thrown, .inr (.of_rest hpoint rfl fun env' =>
        ⟨_, (hrest env' (.ok ())).trans ?_⟩)⟩
      have hrounds : HttpRequestExecutor.MaxRetryCount - s.retryCount = 0 := by omega
      rw [hrounds]
      rfl

/-- A section that does not touch what the loop knows. -/
theorem section_other (hstage : s'.stage = s.stage) (hcount : s'.retryCount = s.retryCount)
    (hheaders : s'.headers = s.headers)
    (hcancelled : s.executor.cancelled = true → s'.executor.cancelled = true)
    (hresponse : s'.executor.userResponse = s.executor.userResponse)
    (hasked : s'.asked = s.asked) :
    Section poco hasCache s s' := by
  have hpoint : s'.point = s.point := by
    unfold System.point
    rw [hstage, hresponse]
    unfold System.asked at hasked
    cases hengine : s.executor.httpEngine with
    | none =>
      rw [hengine, Option.map_none, Option.map_eq_none_iff] at hasked
      rw [hasked]
    | some engine =>
      rw [hengine, Option.map_some, Option.map_eq_some_iff] at hasked
      obtain ⟨engine', hengine', hsame⟩ := hasked
      obtain ⟨huser, hcache⟩ := Prod.mk.inj hsame
      rw [hengine']
      simp only [Option.map_some, huser, hcache]
  refine ⟨⟨?_, ?_, fun networkRequest connectionReused e h => ?_⟩,
    .inr (.of_eq hpoint hcount hheaders)⟩
  · rw [hstage, hcount]
    exact hvalid.count
  · rw [hstage]
    exact hvalid.attempt
  · rw [hstage] at h
    have hcaught := hvalid.caught networkRequest connectionReused e h
    exact ⟨hcaught.thrown.imp_right fun hcancel => ⟨hcancel.1, hcancelled hcancel.2⟩,
      hcaught.reused⟩

omit hvalid in
/-- A cancel leaves the engine's request. -/
theorem cancel_request (engine : HttpEngine) (pool : ConnectionPoolInternal)
    (connectionCancelled : Bool) :
    (engine.cancel pool connectionCancelled).2.1.userRequest = engine.userRequest ∧
      (engine.cancel pool connectionCancelled).2.1.cacheResponse = engine.cacheResponse := by
  unfold HttpEngine.cancel
  split
  · exact ⟨rfl, rfl⟩
  · split <;> exact ⟨rfl, rfl⟩

/-- A cancel is no step of the execution alone. -/
theorem section_cancel (connectionCancelled : Bool) :
    Section poco hasCache s (cancel (record s) connectionCancelled).2 := by
  have hrecord : (record s).stage = s.stage ∧ (record s).retryCount = s.retryCount ∧
      (record s).headers = s.headers ∧ (record s).executor = s.executor := by
    unfold record
    split <;> exact ⟨rfl, rfl, rfl, rfl⟩
  obtain ⟨hstage, hcount, hheaders, hexecutor⟩ := hrecord
  have hresponse : (record s).executor.userResponse = s.executor.userResponse := by rw [hexecutor]
  show Section poco hasCache s (closeUserResponse (cancelEngine { record s with
    executor := { (record s).executor with cancelled := true } } connectionCancelled).2)
  rw [closeUserResponse_eq]
  unfold cancelEngine
  cases hengine : s.executor.httpEngine with
  | none =>
    have hnone : (record s).executor.httpEngine = none := by rw [hexecutor, hengine]
    rw [hnone]
    refine section_other hvalid hstage hcount hheaders (fun _ => rfl) hresponse ?_
    rw [System.asked, System.asked, hengine]
    exact congrArg _ hnone
  | some engine =>
    have hsome : (record s).executor.httpEngine = some engine := by rw [hexecutor, hengine]
    rw [hsome]
    refine section_other hvalid hstage hcount hheaders (fun _ => rfl) hresponse ?_
    rw [asked_eq hengine]
    obtain ⟨huser, hcache⟩ := cancel_request engine (record s).pool connectionCancelled
    exact congrArg some (Prod.ext huser hcache)

theorem section_onIdle (hengine : s.executor.httpEngine = some engine) :
    Section poco hasCache s (s.setEngine (engine.onIdle p)) := by
  refine section_other hvalid rfl rfl rfl id rfl ?_
  rw [asked_eq hengine]
  unfold HttpEngine.onIdle
  split <;> rfl

/-- The publication returns what the execution alone returns. -/
theorem section_publish (hstage : s.stage = .publishing userResponse) :
    Section poco hasCache s (publish s userResponse) := by
  have hcount := hvalid.count
  rw [hstage] at hcount
  refine ⟨.of_none (.inl (retryCount_le hcount rfl)) rfl rfl, .inr (.of_eq ?_ rfl rfl)⟩
  rw [System.point, System.point, hstage]
  rfl

theorem section_finish (hstage : s.stage = .published) :
    Section poco hasCache s (s.goTo (.returned s.executor.userResponse)) := by
  have hcount := hvalid.count
  rw [hstage] at hcount
  refine ⟨.of_none (.inl (retryCount_le hcount rfl)) rfl rfl, .inr (.of_eq ?_ rfl rfl)⟩
  rw [System.point, System.point, hstage]
  rfl

end

/-- **A section leaves what the loop has still to do, or does what comes first in it**, unless it
is where the thread finds out that it was cancelled. -/
theorem section_step {action : Action} (hinv : Inv s)
    (hvalid : s.stage.Valid poco s.retryCount s.executor.cancelled)
    (hstep : step poco context s action = some s') : Section poco context.hasCache s s' := by
  -- before the publication the engine is cancelled exactly if the executor is
  have hlive (hnot : s.stage.isPublished = false) : Live s := by
    refine hinv.resolve_right fun hpublished => ?_
    rw [hpublished.isPublished] at hnot
    cases hnot
  have hcount (hnot : s.stage.isThrown = false) :
      s.retryCount ≤ HttpRequestExecutor.MaxRetryCount := retryCount_le hvalid.count hnot
  unfold step at hstep
  split at hstep <;> cases hstep
  · exact section_cancel hvalid _
  -- one lemma for each section
  · rename_i hengine
    exact section_onIdle hvalid hengine
  · exact section_other hvalid rfl rfl rfl id rfl rfl
  · rename_i hstage
    exact section_createEngine hstage (hcount (by rw [hstage]; rfl)) _
  · rename_i hstage hengine
    exact section_checkCache hstage hengine (hcount (by rw [hstage]; rfl)) _
  · rename_i hstage hengine
    exact section_start (hlive (by rw [hstage]; rfl)) hstage hengine
      (hcount (by rw [hstage]; rfl))
  · rename_i hstage
    exact section_findAndReuseConnection hvalid hstage
  · rename_i hstage
    exact section_createConnection hvalid hstage _ _
  · rename_i hstage hengine
    exact section_installConnection hvalid hengine hstage
  · rename_i hstage
    exact section_sendRequest hvalid hstage _
  · rename_i hstage hengine
    exact section_checkAfterConnect hvalid hstage
  · rename_i hstage hengine
    exact section_receiveResponse hvalid hengine hstage _ _
  · rename_i hstage hengine
    exact section_takeConnectionInternal hengine hvalid hstage
  · rename_i hstage hengine
    exact section_handle hengine hvalid hstage _
  · rename_i hstage hengine
    exact section_createUserResponse hengine hvalid hstage _
  · rename_i hstage
    exact section_checkRetry hvalid hstage
  · rename_i hstage
    exact section_redirect hvalid hstage _
  · rename_i hstage
    exact section_publish hvalid hstage
  · rename_i hstage
    exact section_finish hvalid hstage

end

/-! ## Runs -/

section
variable {poco : Poco} {context : Context} {s s' : System} {action : Action}

/-- What holds in each state of a run. -/
structure Going (poco : Poco) (s : System) : Prop where
  inv : Inv s
  valid : s.stage.Valid poco s.retryCount s.executor.cancelled

theorem going_init (poco : Poco) (request : Request) (pool : ConnectionPoolInternal)
    (headers : HeaderStore) : Going poco (System.init request pool headers) :=
  ⟨.inl (live_init request pool headers), .of_none (.inl (Nat.zero_le _)) rfl rfl⟩

/-- Each step of an execution is valid. -/
theorem going_step (h : Going poco s) (hstep : step poco context s action = some s') :
    Going poco s' :=
  ⟨step_inv h.inv hstep, (section_step h.inv h.valid hstep).valid⟩

/-- What other threads do does not change that the call has found out. -/
theorem stopped_step (h : Stopped s) (hstep : step poco context s action = some s') :
    Stopped s' := by
  have hthrown := h.stage_eq
  unfold step at hstep
  split at hstep <;> cases hstep
  case h_1 =>
    have hrecord : (record s).stage = s.stage := by
      unfold record
      split <;> rfl
    obtain ⟨httpEngine, pool, heq, -⟩ := cancel_eq (record s) _
    rw [heq]
    exact ⟨hrecord.trans hthrown, rfl⟩
  case h_2 => exact ⟨hthrown, h.cancelled⟩
  case h_3 => exact ⟨hthrown, h.cancelled⟩
  all_goals
    have hstage := ‹s.stage = _›
    rw [hstage] at hthrown
    cases hthrown

/-- However the loop ends from the last state of a run, so it may from the first. -/
theorem simulates_run {actions : List Action} (h : Going poco s)
    (hrun : Runs.run (step poco context) s actions = some s') :
    Stopped s' ∨ Simulates poco context.hasCache s s' :=
  Runs.choice_of_run (fun (s : System) env => s.outcome poco context.hasCache env)
    (fun _ _ _ h hstep => going_step h hstep) (fun _ _ _ h hstep => stopped_step h hstep)
    (fun _ _ _ h hstep => (section_step h.inv h.valid hstep).simulates) h hrun

/-- The loop, all of which is still to do. -/
theorem outcome_init (poco : Poco) (hasCache : Bool) (env : ℕ → Surroundings) (request : Request)
    (pool : ConnectionPoolInternal) (headers : HeaderStore) :
    (System.init request pool headers).outcome poco hasCache env =
      some (exec (HttpRequestExecutor.executeWithRetry poco hasCache env request) headers) := rfl

/-- For the rounds that no run comes to. -/
def unasked : Surroundings where
  cancelled := true
  nowAtEpoch := 0
  metadata := none
  dataStream := false
  network := .error cancelledException
  readAll := .ok ()

/-- **A run that ends, ends as `executeWithRetry` does alone**, in some surroundings: with its
response or exception, and the headers that it leaves. Only the exception of a call that found out
that it was cancelled may be another. -/
theorem refines_executeWithRetry (poco : Poco) (context : Context) (request : Request)
    (pool : ConnectionPoolInternal) (headers : HeaderStore) (actions : List Action) (t : System)
    (hrun : Runs.run (step poco context) (System.init request pool headers) actions = some t) :
    (∀ response, t.stage = .returned response → ∃ env userResponse, response = some userResponse ∧
      exec (HttpRequestExecutor.executeWithRetry poco context.hasCache env request) headers =
        (.ok userResponse, t.headers)) ∧
    (∀ e, t.stage = .thrown e → e = cancelledException ∧ t.executor.cancelled = true ∨
      ∃ env, exec (HttpRequestExecutor.executeWithRetry poco context.hasCache env request) headers =
        (.error e, t.headers)) := by
  have hsimulates := simulates_run (going_init poco request pool headers) hrun
  constructor
  · intro response hstage
    rcases hsimulates with hstopped | hsimulates
    · rw [hstopped.stage_eq] at hstage
      cases hstage
    · obtain ⟨env, henv⟩ := hsimulates fun _ => unasked
      rw [outcome_init, System.outcome, System.point, hstage] at henv
      cases response with
      | none => cases henv
      | some userResponse => exact ⟨env, userResponse, rfl, Option.some.inj henv⟩
  · intro e hstage
    rcases hsimulates with hstopped | hsimulates
    · left
      have hthrown := hstopped.stage_eq.symm.trans hstage
      cases hthrown
      exact ⟨rfl, hstopped.cancelled⟩
    · right
      obtain ⟨env, henv⟩ := hsimulates fun _ => unasked
      rw [outcome_init, System.outcome, System.point, hstage] at henv
      exact ⟨env, Option.some.inj henv⟩

/-- The call of `missedRun`. -/
def storedRequest : Request := ⟨.get, "http://host/", none, 0, {}, none⟩

/-- It goes to a client with a cache. -/
def cachingContext : Context := ⟨⟨none, "", "", 60⟩, true, true⟩

/-- A request whose response is stored. -/
def storedStart : System :=
  System.init storedRequest (ConnectionPoolInternal.create 10 60) ⟨[Headers.empty]⟩

/-- The call returns the stored response although it was cancelled. -/
theorem refines_executeWithRetry_missedRun :
    ∃ t, Runs.run (step Poco.plain cachingContext) storedStart missedRun = some t ∧
      t.executor.cancelled = true ∧ ∀ response, t.stage = .returned response →
        ∃ env userResponse, response = some userResponse ∧
          exec (HttpRequestExecutor.executeWithRetry Poco.plain true env storedRequest)
            ⟨[Headers.empty]⟩ = (.ok userResponse, t.headers) := by
  have hcancelled : (Runs.run (step Poco.plain cachingContext) storedStart missedRun).map
      (·.executor.cancelled) = some true := by decide +kernel
  obtain ⟨t, hrun, ht⟩ := Option.map_eq_some_iff.mp hcancelled
  exact ⟨t, hrun, ht, (refines_executeWithRetry _ _ _ _ _ _ t hrun).1⟩

end

end EasyHttp.ExecutionCancel
