import EasyHttp.Engine.SequentialExecution

/-!
# How long `execute` goes on

The loop of `executeWithRetry` has at most six rounds, and in a round a request is sent again only
after a connection that was reused has failed, and then on a new one. So each section brings the
thread closer to its end, whatever the server, the cache and the other threads do; after a `cancel`
little is left to do.

* `Leads`: the flow of control through the sections;
* `leads_of_step`: each section follows it;
* `sections_le`: how many sections a run has, and how many requests it sends;
* `sections_le_of_cancelled`: what still comes after a `cancel`;
* `exists_section`: until the end there is a section to take.
-/

namespace EasyHttp.ExecutionCancel

open Exec

/-! ## The flow of control -/

/-- The round in which the thread is, and where it stands. -/
structure Place where
  retryCount : ℕ
  stage : Stage

/-- Where the execution is: the round and the stage. -/
def System.place (s : System) : Place := ⟨s.retryCount, s.stage⟩

/-- The executing thread has returned or thrown. -/
def Stage.isEnd : Stage → Bool
  | returned _ | thrown _ => true
  | _ => false

/-- Where a section leads; a thread that knows that it is cancelled passes no check. -/
inductive Leads (cancelled : Bool) : Place → Place → Prop
  | throws {k : ℕ} {stage : Stage} (e : HttpException) (h : stage.isEnd = false) :
    Leads cancelled ⟨k, stage⟩ ⟨k, .thrown e⟩
  | createEngine {k : ℕ} {currentRequest : Request} (h : cancelled = false) :
    Leads cancelled ⟨k, .creating currentRequest⟩ ⟨k, .checkingCache⟩
  | stored {k : ℕ} (userResponse : Response) :
    Leads cancelled ⟨k, .checkingCache⟩ ⟨k, .answered userResponse⟩
  | notStored {k : ℕ} (networkRequest : Request) :
    Leads cancelled ⟨k, .checkingCache⟩ ⟨k, .starting networkRequest false⟩
  | notStarted {k : ℕ} {networkRequest : Request} {force : Bool} (e : HttpException) :
    Leads cancelled ⟨k, .starting networkRequest force⟩ ⟨k, .catching networkRequest false e⟩
  | start {k : ℕ} {networkRequest : Request} (uri : Uri) (h : cancelled = false) :
    Leads cancelled ⟨k, .starting networkRequest false⟩ ⟨k, .finding ⟨networkRequest, uri, false⟩⟩
  | startForced {k : ℕ} {networkRequest : Request} (uri : Uri) (h : cancelled = false) :
    Leads cancelled ⟨k, .starting networkRequest true⟩
      ⟨k, .connecting ⟨networkRequest, uri, false⟩⟩
  | found {k : ℕ} {attempt : Attempt} (p : ConnectionPtr) :
    Leads cancelled ⟨k, .finding attempt⟩
      ⟨k, .installing { attempt with connectionReused := true } p⟩
  | notFound {k : ℕ} {attempt : Attempt} :
    Leads cancelled ⟨k, .finding attempt⟩ ⟨k, .connecting attempt⟩
  | created {k : ℕ} {attempt : Attempt} (p : ConnectionPtr) :
    Leads cancelled ⟨k, .connecting attempt⟩ ⟨k, .installing attempt p⟩
  | installed {k : ℕ} {attempt : Attempt} {p : ConnectionPtr} :
    Leads cancelled ⟨k, .installing attempt p⟩ ⟨k, .sending attempt⟩
  | sent {k : ℕ} {attempt : Attempt} : Leads cancelled ⟨k, .sending attempt⟩ ⟨k, .sent attempt⟩
  | checked {k : ℕ} {attempt : Attempt} (h : cancelled = false) :
    Leads cancelled ⟨k, .sent attempt⟩ ⟨k, .receiving attempt⟩
  | received {k : ℕ} {attempt : Attempt} (networkResponse : Response) :
    Leads cancelled ⟨k, .receiving attempt⟩ ⟨k, .received networkResponse⟩
  | notCreated {k : ℕ} {attempt : Attempt} (e : HttpException) :
    Leads cancelled ⟨k, .connecting attempt⟩
      ⟨k, .catching attempt.networkRequest attempt.connectionReused e⟩
  | notSent {k : ℕ} {attempt : Attempt} (e : HttpException) :
    Leads cancelled ⟨k, .sending attempt⟩
      ⟨k, .catching attempt.networkRequest attempt.connectionReused e⟩
  | notChecked {k : ℕ} {attempt : Attempt} (e : HttpException) :
    Leads cancelled ⟨k, .sent attempt⟩
      ⟨k, .catching attempt.networkRequest attempt.connectionReused e⟩
  | notReceived {k : ℕ} {attempt : Attempt} (e : HttpException) :
    Leads cancelled ⟨k, .receiving attempt⟩
      ⟨k, .catching attempt.networkRequest attempt.connectionReused e⟩
  | caught {k : ℕ} {networkRequest : Request} {connectionReused : Bool} {e : HttpException}
    (p : ConnectionPtr) :
    Leads cancelled ⟨k, .catching networkRequest connectionReused e⟩
      ⟨k, .handling networkRequest connectionReused e p⟩
  | again {k : ℕ} {networkRequest : Request} {e : HttpException} {p : ConnectionPtr}
    (h : cancelled = false) :
    Leads cancelled ⟨k, .handling networkRequest true e p⟩ ⟨k, .starting networkRequest true⟩
  | answered {k : ℕ} {networkResponse : Response} (userResponse : Response) :
    Leads cancelled ⟨k, .received networkResponse⟩ ⟨k, .answered userResponse⟩
  | redirected {k : ℕ} {userResponse : Response} (retryRequest : Request) :
    Leads cancelled ⟨k, .answered userResponse⟩ ⟨k, .redirecting userResponse retryRequest⟩
  | final {k : ℕ} {userResponse : Response} :
    Leads cancelled ⟨k, .answered userResponse⟩ ⟨k, .publishing userResponse⟩
  | nextRound {k : ℕ} {userResponse : Response} {retryRequest : Request}
    (h : k + 1 ≤ HttpRequestExecutor.MaxRetryCount) :
    Leads cancelled ⟨k, .redirecting userResponse retryRequest⟩ ⟨k + 1, .creating retryRequest⟩
  | tooMany {k : ℕ} {userResponse : Response} {retryRequest : Request} (e : HttpException) :
    Leads cancelled ⟨k, .redirecting userResponse retryRequest⟩ ⟨k + 1, .thrown e⟩
  | published {k : ℕ} {userResponse : Response} :
    Leads cancelled ⟨k, .publishing userResponse⟩ ⟨k, .published⟩
  | finished {k : ℕ} (response : Option Response) :
    Leads cancelled ⟨k, .published⟩ ⟨k, .returned response⟩

/-- A section of the executing thread. -/
def Action.isSection : Action → Bool
  | cancel _ | onIdle _ | others _ => false
  | _ => true

/-- The request is sent. -/
def Action.isSend : Action → Bool
  | sendRequest _ => true
  | _ => false

section
variable {poco : Poco} {context : Context} {s s' : System} {action : Action} {engine : HttpEngine}
  {attempt : Attempt} {networkRequest currentRequest retryRequest : Request}
  {userResponse networkResponse : Response} {e : HttpException} {p : ConnectionPtr}

/-- The engine of a round is made, unless the executor is cancelled. -/
theorem leads_createEngine (hstage : s.stage = .creating currentRequest) (address : ListenerPtr) :
    Leads s.executor.cancelled s.place (createEngine s currentRequest address).place := by
  unfold System.place createEngine
  rw [hstage]
  cases hcancelled : s.executor.cancelled with
  | true => exact .throws _ rfl
  | false =>
    have hcount : (destroyEngine s).retryCount = s.retryCount := by
      unfold destroyEngine
      split <;> rfl
    show Leads false _ ⟨(destroyEngine s).retryCount, _⟩
    rw [hcount]
    exact .createEngine rfl

/-- The cache answers, or a request is to be sent. -/
theorem leads_checkCache (hstage : s.stage = .checkingCache) (env : Surroundings) :
    Leads s.executor.cancelled s.place
      (checkCacheBeforeSendRequest poco context s engine env).place := by
  unfold System.place checkCacheBeforeSendRequest
  rw [hstage]
  rcases exec (HttpEngine.checkCacheBeforeSendRequest poco context.hasCache env engine.userRequest)
    s.headers with ⟨result, headers⟩
  cases result with
  | error e => exact .throws e rfl
  | ok check =>
    dsimp only
    split
    · exact .stored _
    · exact .notStored _
    · exact .throws _ rfl

/-- An attempt begins, unless the engine is cancelled. -/
theorem leads_start {force : Bool} (hstage : s.stage = .starting networkRequest force)
    (hcancelled : engine.cancelled = s.executor.cancelled) :
    Leads s.executor.cancelled s.place
      (start poco context s engine networkRequest force).place := by
  unfold System.place start
  rw [hstage, ← hcancelled]
  cases hengine : engine.cancelled with
  | true => exact .notStarted _
  | false =>
    rw [if_neg Bool.false_ne_true]
    have hcount : (chooseConnectionPool context s).retryCount = s.retryCount := by
      unfold chooseConnectionPool
      split <;> rfl
    cases poco.uri networkRequest.url with
    | error message =>
      show Leads false _ ⟨(chooseConnectionPool context s).retryCount, _⟩
      rw [hcount]
      exact .notStarted _
    | ok uri =>
      show Leads false _ ⟨(chooseConnectionPool context s).retryCount, _⟩
      rw [hcount]
      cases force with
      | true => exact .startForced uri rfl
      | false => exact .start uri rfl

/-- A connection of the pool is found or not. -/
theorem leads_findAndReuseConnection {cancelled : Bool} (hstage : s.stage = .finding attempt) :
    Leads cancelled s.place (findAndReuseConnection poco context s attempt).place := by
  unfold System.place findAndReuseConnection
  rw [hstage]
  split
  · exact .found _
  · exact .notFound

/-- A connection is made, or its context fails. -/
theorem leads_createConnection {cancelled : Bool} (hstage : s.stage = .connecting attempt)
    (p : ConnectionPtr) (sslContext : Except HttpException Unit) :
    Leads cancelled s.place (createConnection poco context s attempt p sslContext).place := by
  unfold System.place createConnection
  rw [hstage]
  split
  · exact .notCreated _
  · exact .created p

/-- The request is sent, or sending it fails. -/
theorem leads_sendRequest {cancelled : Bool} (hstage : s.stage = .sending attempt)
    (sending : Except HttpException Unit) :
    Leads cancelled s.place (sendRequest s attempt sending).place := by
  unfold System.place sendRequest
  rw [hstage]
  split
  · exact .notSent _
  · exact .sent

/-- After a cancel the attempt goes to the handlers. -/
theorem leads_checkAfterConnect (hstage : s.stage = .sent attempt)
    (hcancelled : engine.cancelled = s.executor.cancelled) :
    Leads s.executor.cancelled s.place (checkAfterConnect s engine attempt).place := by
  unfold System.place checkAfterConnect
  rw [hstage, ← hcancelled]
  cases engine.cancelled with
  | true => exact .notChecked _
  | false => exact .checked rfl

/-- The response is received, or receiving it fails. -/
theorem leads_receiveResponse {cancelled : Bool} (hstage : s.stage = .receiving attempt)
    (network : Except HttpException NetworkAnswer) (keepAlive : Bool) :
    Leads cancelled s.place (receiveResponse poco s engine attempt network keepAlive).place := by
  have hcount : (removeClosed s engine keepAlive).retryCount = s.retryCount := by
    unfold removeClosed
    split <;> rfl
  unfold System.place receiveResponse
  rw [hstage]
  cases network with
  | error e => exact .notReceived e
  | ok answer =>
    dsimp only
    split
    · show Leads _ _ ⟨(removeClosed s engine keepAlive).retryCount, _⟩
      rw [hcount]
      exact .notReceived _
    · show Leads _ _ ⟨(removeClosed s engine keepAlive).retryCount, _⟩
      rw [hcount]
      exact .received _

/-- The handlers take the connection of the engine, where there is one. -/
theorem leads_takeConnectionInternal {cancelled connectionReused : Bool}
    (hstage : s.stage = .catching networkRequest connectionReused e) :
    Leads cancelled s.place
      (takeConnectionInternal s engine networkRequest connectionReused e).place := by
  unfold System.place takeConnectionInternal
  rw [hstage]
  split
  · exact .throws _ rfl
  · exact .throws _ rfl
  · exact .caught _

/-- Only an engine that is not cancelled goes back, and to a new connection. -/
theorem leads_handle {connectionReused : Bool}
    (hstage : s.stage = .handling networkRequest connectionReused e p)
    (hcancelled : engine.cancelled = s.executor.cancelled) (reset : Except HttpException Bool) :
    Leads s.executor.cancelled s.place
      (handle s engine networkRequest connectionReused e p reset).place := by
  unfold System.place handle
  rw [hstage]
  cases e with
  | execution message =>
    dsimp only
    by_cases hretry : (engine.cancelled || !connectionReused) = true
    · rw [if_pos hretry]
      exact .throws _ rfl
    · rw [if_neg hretry]
      simp only [Bool.or_eq_true, Bool.not_eq_true', not_or, Bool.not_eq_true,
        Bool.not_eq_false] at hretry
      obtain ⟨hnot, rfl⟩ := hretry
      split
      · exact .throws _ rfl
      · exact .throws _ rfl
      · exact .again (hcancelled ▸ hnot)
  | _ => exact .throws _ rfl

/-- The response of the user is made, or making it fails. -/
theorem leads_createUserResponse {cancelled : Bool} (hstage : s.stage = .received networkResponse)
    (env : Surroundings) :
    Leads cancelled s.place
      (createUserResponse poco context s engine networkResponse env).place := by
  unfold System.place createUserResponse
  rw [hstage]
  split
  · exact .throws _ rfl
  · exact .answered _

/-- There is another round to come, or the response is final. -/
theorem leads_checkRetry {cancelled : Bool} (hstage : s.stage = .answered userResponse) :
    Leads cancelled s.place (checkRetry poco s userResponse).place := by
  unfold System.place checkRetry
  rw [hstage]
  rcases exec (HttpEngine.getRetryRequest poco userResponse) s.headers with ⟨result, headers⟩
  dsimp only
  split
  · exact .throws _ rfl
  · exact .redirected _
  · exact .final

/-- Another round begins, if there were not too many. -/
theorem leads_redirect {cancelled : Bool}
    (hstage : s.stage = .redirecting userResponse retryRequest)
    (readAll : Except HttpException Unit) :
    Leads cancelled s.place (redirect context s userResponse retryRequest readAll).place := by
  unfold System.place redirect
  rw [hstage]
  split
  · exact .throws _ rfl
  · by_cases hcount : s.retryCount + 1 ≤ HttpRequestExecutor.MaxRetryCount
    · rw [if_pos hcount]
      exact .nextRound hcount
    · rw [if_neg hcount]
      exact .tooMany _

/-- Each section follows the flow of control. -/
theorem leads_of_step (hinv : Inv s) (hsection : action.isSection = true)
    (hstep : step poco context s action = some s') :
    Leads s.executor.cancelled s.place s'.place := by
  -- before the publication the engine is cancelled exactly if the executor is
  have hcancelled {engine : HttpEngine} (hengine : s.executor.httpEngine = some engine)
      (hnot : s.stage.isPublished = false) : engine.cancelled = s.executor.cancelled := by
    refine (hinv.resolve_right fun hpublished => ?_).engine engine hengine
    rw [hpublished.isPublished] at hnot
    cases hnot
  unfold step at hstep
  split at hstep <;> cases hstep
  case h_1 => cases hsection
  case h_2 => cases hsection
  case h_3 => cases hsection
  -- one lemma for each section of `execute`
  · exact leads_createEngine ‹_› _
  · exact leads_checkCache ‹_› _
  · rename_i hstage hengine
    exact leads_start hstage (hcancelled hengine (by rw [hstage]; rfl))
  · exact leads_findAndReuseConnection ‹_›
  · exact leads_createConnection ‹_› _ _
  · rename_i hstage _
    rw [System.place, hstage]
    exact .installed
  · exact leads_sendRequest ‹_› _
  · rename_i hstage hengine
    exact leads_checkAfterConnect hstage (hcancelled hengine (by rw [hstage]; rfl))
  · exact leads_receiveResponse ‹_› _ _
  · exact leads_takeConnectionInternal ‹_›
  · rename_i hstage hengine
    exact leads_handle hstage (hcancelled hengine (by rw [hstage]; rfl)) _
  · exact leads_createUserResponse ‹_› _
  · exact leads_checkRetry ‹_›
  · exact leads_redirect ‹_› _
  · rename_i hstage
    rw [System.place, hstage]
    exact .published
  · rename_i hstage
    rw [System.place, hstage]
    exact .finished _

/-- Other threads do not move this one. -/
theorem place_of_step (hsection : action.isSection = false)
    (hstep : step poco context s action = some s') : s'.place = s.place := by
  unfold step at hstep
  split at hstep <;> cases hstep
  case h_1 =>
    have hrecord : (record s).place = s.place := by
      unfold record
      split <;> rfl
    obtain ⟨httpEngine, pool, heq, -⟩ := cancel_eq (record s) _
    rw [heq]
    exact hrecord
  case h_2 => rfl
  case h_3 => rfl
  all_goals cases hsection

end

/-! ## What is left to do -/

/-- The sections that can still come in the round; a connection that was reused may fail, and then
comes the attempt on a new one. -/
def Stage.sectionsOfRound : Stage → ℕ
  | creating _ => 20
  | checkingCache => 19
  | starting _ forceToCreateConnection => if forceToCreateConnection then 10 else 18
  | finding attempt => if attempt.connectionReused then 18 else 17
  | connecting attempt => if attempt.connectionReused then 17 else 9
  | installing attempt _ => if attempt.connectionReused then 16 else 8
  | sending attempt => if attempt.connectionReused then 15 else 7
  | sent attempt => if attempt.connectionReused then 14 else 6
  | receiving attempt => if attempt.connectionReused then 13 else 5
  | catching _ connectionReused _ => if connectionReused then 12 else 2
  | handling _ connectionReused _ _ => if connectionReused then 11 else 1
  | received _ => 4
  | answered _ => 3
  | redirecting _ _ => 2
  | publishing _ => 2
  | published => 1
  | returned _ | thrown _ => 0

/-- The requests that can still be sent in the round. -/
def Stage.requestsOfRound : Stage → ℕ
  | creating _ | checkingCache | finding _ => 2
  | starting _ forceToCreateConnection => if forceToCreateConnection then 1 else 2
  | connecting attempt | installing attempt _ | sending attempt =>
    if attempt.connectionReused then 2 else 1
  | sent attempt | receiving attempt => if attempt.connectionReused then 1 else 0
  | catching _ connectionReused _ | handling _ connectionReused _ _ =>
    if connectionReused then 1 else 0
  | received _ | answered _ | redirecting _ _ | publishing _ | published | returned _ | thrown _ =>
    0

/-- The response is the one to return. -/
def Stage.isLast : Stage → Bool
  | publishing _ | published | returned _ | thrown _ => true
  | _ => false

namespace Place

/-- The rounds that can still come after this one. -/
def roundsLeft (place : Place) : ℕ :=
  if place.stage.isLast then 0 else HttpRequestExecutor.MaxRetryCount - place.retryCount

/-- How many sections an execution has before it at most. -/
def sectionsLeft (place : Place) : ℕ := place.stage.sectionsOfRound + 19 * place.roundsLeft

/-- How many requests an execution still sends at most. -/
def requestsLeft (place : Place) : ℕ := place.stage.requestsOfRound + 2 * place.roundsLeft

end Place

/-- The requests that the next section sends. -/
def Stage.sends : Stage → ℕ
  | sending _ => 1
  | _ => 0

/-- The sections that can still come after a `cancel`. -/
def Stage.sectionsOfCancelled : Stage → ℕ
  | creating _ => 1
  | checkingCache => 4
  | starting _ _ => 3
  | finding _ => 7
  | connecting _ => 6
  | installing _ _ => 5
  | sending _ => 4
  | sent _ => 3
  | receiving _ => 5
  | catching _ _ _ => 2
  | handling _ _ _ _ => 1
  | received _ => 4
  | answered _ => 3
  | redirecting _ _ => 2
  | publishing _ => 2
  | published => 1
  | returned _ | thrown _ => 0

/-- The requests that can still be sent after a `cancel`. -/
def Stage.requestsOfCancelled : Stage → ℕ
  | finding _ | connecting _ | installing _ _ | sending _ => 1
  | _ => 0

/-- The stages from which a cancelled call can still return a response. -/
def Stage.canReturn : Stage → Bool
  | checkingCache | receiving _ | received _ | answered _ | publishing _ | published
  | returned _ => true
  | _ => false

section
variable {place place' : Place} {cancelled : Bool} {stage : Stage}

theorem sectionsOfRound_pos (h : stage.isEnd = false) : 0 < stage.sectionsOfRound := by
  cases stage with
  | returned response => cases h
  | thrown e => cases h
  | _ => grind [Stage.sectionsOfRound]

theorem sectionsOfCancelled_pos (h : stage.isEnd = false) : 0 < stage.sectionsOfCancelled := by
  cases stage with
  | returned response => cases h
  | thrown e => cases h
  | _ => simp [Stage.sectionsOfCancelled]

theorem sends_le_requestsOfRound (stage : Stage) : stage.sends ≤ stage.requestsOfRound := by
  cases stage with
  | sending attempt =>
    simp only [Stage.sends, Stage.requestsOfRound]
    split <;> omega
  | _ => exact Nat.zero_le _

theorem sends_le_requestsOfCancelled (stage : Stage) :
    stage.sends ≤ stage.requestsOfCancelled := by
  cases stage <;> simp [Stage.sends, Stage.requestsOfCancelled]

/-- Each section takes one from the bound. -/
theorem sectionsLeft_of_leads (h : Leads cancelled place place') :
    1 + place'.sectionsLeft ≤ place.sectionsLeft := by
  cases h with
  | throws e hnot =>
    have hpos := sectionsOfRound_pos hnot
    exact Nat.le_add_right_of_le hpos
  | nextRound hcount =>
    -- the rounds that are left are one less
    simp only [Place.sectionsLeft, Place.roundsLeft, Stage.isLast, Stage.sectionsOfRound,
      Bool.false_eq_true, if_false]
    omega
  | _ =>
    simp only [Place.sectionsLeft, Place.roundsLeft, Stage.isLast, Stage.sectionsOfRound]
    grind

/-- Each request takes one from the bound. -/
theorem requestsLeft_of_leads (h : Leads cancelled place place') :
    place.stage.sends + place'.requestsLeft ≤ place.requestsLeft := by
  cases h with
  | throws e hnot => exact Nat.le_add_right_of_le (sends_le_requestsOfRound _)
  | nextRound hcount =>
    simp only [Place.requestsLeft, Place.roundsLeft, Stage.isLast, Stage.requestsOfRound,
      Stage.sends, Bool.false_eq_true, if_false]
    omega
  | _ =>
    simp only [Place.requestsLeft, Place.roundsLeft, Stage.isLast, Stage.requestsOfRound,
      Stage.sends]
    grind

/-- Each section after a cancel takes one from the bound. -/
theorem sectionsOfCancelled_of_leads (h : Leads true place place') :
    1 + place'.stage.sectionsOfCancelled ≤ place.stage.sectionsOfCancelled := by
  cases h with
  | throws e hnot => exact sectionsOfCancelled_pos hnot
  | createEngine hnot | start _ hnot | startForced _ hnot | checked hnot | again hnot => cases hnot
  | _ => simp [Stage.sectionsOfCancelled]

/-- Each request after a cancel takes one from the bound. -/
theorem requestsOfCancelled_of_leads (h : Leads true place place') :
    place.stage.sends + place'.stage.requestsOfCancelled ≤ place.stage.requestsOfCancelled := by
  cases h with
  | throws e hnot => exact sends_le_requestsOfCancelled _
  | createEngine hnot | start _ hnot | startForced _ hnot | checked hnot | again hnot => cases hnot
  | _ => simp [Stage.requestsOfCancelled, Stage.sends]

/-- A cancelled execution returns only from places from which it can return. -/
theorem canReturn_of_leads (h : Leads true place place') (hreturn : place'.stage.canReturn = true) :
    place.stage.canReturn = true := by
  cases h with
  | createEngine hnot | start _ hnot | startForced _ hnot | checked hnot | again hnot => cases hnot
  | stored | received | answered | final | published | finished => rfl
  | _ => cases hreturn

end

/-! ## Runs -/

section
variable {poco : Poco} {context : Context} {s s' t : System} {action : Action}

/-- What sends a request is at a stage that sends one. -/
theorem sends_of_step (hstep : step poco context s action = some s')
    (hsend : action.isSend = true) : s.stage.sends = 1 := by
  cases action with
  | sendRequest sending =>
    cases hstage : s.stage with
    | sending attempt => rfl
    | _ => simp [step, hstage] at hstep
  | _ => cases hsend

theorem isSection_of_isSend (h : action.isSend = true) : action.isSection = true := by
  cases action with
  | sendRequest sending => rfl
  | _ => cases h

/-- What each lead lowers by what its section costs, each step lowers by what is counted of it. -/
theorem left_step (left : Place → ℕ) (cost : Stage → ℕ) {counts : Action → Bool} (hinv : Inv s)
    (hleads : ∀ place', Leads s.executor.cancelled s.place place' →
      cost s.stage + left place' ≤ left s.place)
    (hsection : counts action = true → action.isSection = true)
    (hcost : counts action = true → 1 ≤ cost s.stage)
    (hstep : step poco context s action = some s') :
    (if counts action then 1 else 0) + left s'.place ≤ left s.place := by
  have hcounts : (if counts action then 1 else 0) ≤ cost s.stage := by
    split
    · exact hcost ‹_›
    · exact Nat.zero_le _
  cases hof : action.isSection with
  | true =>
    have hle := hleads _ (leads_of_step hinv hof hstep)
    omega
  | false =>
    have hnot : ¬counts action = true := fun h => by
      rw [hsection h] at hof
      cases hof
    rw [if_neg hnot, place_of_step hof hstep, Nat.zero_add]

/-- A step takes a section from the bound, if it is one. -/
theorem sectionsLeft_step (hinv : Inv s) (hstep : step poco context s action = some s') :
    (if action.isSection then 1 else 0) + s'.place.sectionsLeft ≤ s.place.sectionsLeft :=
  left_step Place.sectionsLeft (fun _ => 1) hinv (fun _ => sectionsLeft_of_leads) id
    (fun _ => le_rfl) hstep

/-- A step takes a request from the bound, if it sends one. -/
theorem requestsLeft_step (hinv : Inv s) (hstep : step poco context s action = some s') :
    (if action.isSend then 1 else 0) + s'.place.requestsLeft ≤ s.place.requestsLeft :=
  left_step Place.requestsLeft Stage.sends hinv (fun _ => requestsLeft_of_leads)
    isSection_of_isSend (fun hsend => (sends_of_step hstep hsend).ge) hstep

/-- What no section takes back. -/
structure Keeps (s s' : System) : Prop where
  cancelled : s.executor.cancelled = true → s'.executor.cancelled = true
  engine : s.executor.httpEngine.isSome = true → s'.executor.httpEngine.isSome = true

theorem keeps_cancel (s : System) (connectionCancelled : Bool) :
    Keeps s (cancel (record s) connectionCancelled).2 := by
  have hrecord : (record s).executor = s.executor := by
    unfold record
    split <;> rfl
  unfold cancel
  dsimp only
  rw [closeUserResponse_eq]
  unfold cancelEngine
  rw [hrecord]
  cases hengine : s.executor.httpEngine with
  | none =>
    refine ⟨fun _ => rfl, fun h => ?_⟩
    rw [hengine] at h
    cases h
  | some engine => exact ⟨fun _ => rfl, fun _ => rfl⟩

theorem keeps_createEngine (s : System) (currentRequest : Request) (address : ListenerPtr) :
    Keeps s (createEngine s currentRequest address) := by
  unfold createEngine
  split
  · exact ⟨id, id⟩
  · have hexecutor : (destroyEngine s).executor = s.executor := by
      unfold destroyEngine
      split <;> rfl
    refine ⟨fun h => ?_, fun _ => rfl⟩
    show (destroyEngine s).executor.cancelled = true
    rw [hexecutor, h]

theorem keeps_checkCache (s : System) (engine : HttpEngine) (env : Surroundings) :
    Keeps s (checkCacheBeforeSendRequest poco context s engine env) := by
  unfold checkCacheBeforeSendRequest
  rcases exec (HttpEngine.checkCacheBeforeSendRequest poco context.hasCache env engine.userRequest)
    s.headers with ⟨result, headers⟩
  cases result with
  | error e => exact ⟨id, id⟩
  | ok check =>
    dsimp only
    split <;> exact ⟨id, fun _ => rfl⟩

theorem keeps_start (s : System) (engine : HttpEngine) (networkRequest : Request) (force : Bool) :
    Keeps s (start poco context s engine networkRequest force) := by
  have hexecutor : (chooseConnectionPool context s).executor = s.executor := by
    unfold chooseConnectionPool
    split <;> rfl
  unfold start
  split
  · exact ⟨id, id⟩
  · dsimp only
    split <;> exact ⟨fun h => hexecutor ▸ h, fun h => hexecutor ▸ h⟩

theorem keeps_step (hstep : step poco context s action = some s') : Keeps s s' := by
  unfold step at hstep
  split at hstep <;> cases hstep
  · exact keeps_cancel s _
  · exact ⟨id, fun _ => rfl⟩
  · exact ⟨id, id⟩
  · exact keeps_createEngine s _ _
  · exact keeps_checkCache s _ _
  · exact keeps_start s _ _ _
  · unfold findAndReuseConnection
    split <;> exact ⟨id, id⟩
  · unfold createConnection
    split <;> exact ⟨id, id⟩
  · exact ⟨id, fun _ => rfl⟩
  · unfold sendRequest
    split <;> exact ⟨id, id⟩
  · unfold checkAfterConnect
    split <;> exact ⟨id, id⟩
  · have hexecutor (s : System) (engine : HttpEngine) (keepAlive : Bool) :
        (removeClosed s engine keepAlive).executor = s.executor := by
      unfold removeClosed
      split <;> rfl
    unfold receiveResponse
    split
    · exact ⟨id, id⟩
    · dsimp only
      split <;> exact ⟨fun h => (hexecutor _ _ _).symm ▸ h, fun h => (hexecutor _ _ _).symm ▸ h⟩
  · unfold takeConnectionInternal
    split
    · exact ⟨id, id⟩
    · exact ⟨id, id⟩
    · exact ⟨id, fun _ => rfl⟩
  · unfold handle
    dsimp only
    split
    · split
      · exact ⟨id, id⟩
      · split <;> exact ⟨id, id⟩
    · exact ⟨id, id⟩
  · unfold createUserResponse
    split <;> exact ⟨id, id⟩
  · unfold checkRetry
    dsimp only
    split <;> exact ⟨id, id⟩
  · unfold redirect
    split
    · exact ⟨id, id⟩
    · dsimp only
      split <;> exact ⟨id, id⟩
  · exact ⟨id, id⟩
  · exact ⟨id, id⟩

/-- The stages in which the thread is in a method of the engine, or is about to call one. -/
def Stage.inEngine : Stage → Bool
  | checkingCache | starting _ _ | finding _ | connecting _ | installing _ _ | sending _ | sent _
  | receiving _ | catching _ _ _ | handling _ _ _ _ | received _ => true
  | _ => false

/-- What holds in each state of a run. -/
structure Ordered (s : System) : Prop where
  inv : Inv s
  engine : s.stage.inEngine = true → s.executor.httpEngine.isSome = true

/-- Inside the engine it was inside, or made the engine. -/
theorem inEngine_of_leads {cancelled : Bool} {place place' : Place}
    (h : Leads cancelled place place') (hin : place'.stage.inEngine = true) :
    place.stage.inEngine = true ∨ ∃ currentRequest, place.stage = .creating currentRequest := by
  cases h with
  | createEngine => exact .inr ⟨_, rfl⟩
  | throws | nextRound | tooMany | published | finished | redirected | final => cases hin
  | _ => exact .inl rfl

theorem ordered_init (request : Request) (pool : ConnectionPoolInternal) (headers : HeaderStore) :
    Ordered (System.init request pool headers) :=
  ⟨.inl (live_init request pool headers), fun h => by cases h⟩

theorem ordered_step (h : Ordered s) (hstep : step poco context s action = some s') :
    Ordered s' := by
  refine ⟨step_inv h.inv hstep, fun hin => ?_⟩
  have hkeeps := keeps_step hstep
  cases hsection : action.isSection with
  | false =>
    have hplace := congrArg Place.stage (place_of_step hsection hstep)
    have hstage : s'.stage = s.stage := hplace
    rw [hstage] at hin
    exact hkeeps.engine (h.engine hin)
  | true =>
    rcases inEngine_of_leads (leads_of_step h.inv hsection hstep) hin with hin | ⟨request, hstage⟩
    · exact hkeeps.engine (h.engine hin)
    · have hstage : s.stage = .creating request := hstage
      cases action with
      | createEngine address =>
        simp only [step, hstage] at hstep
        cases hstep
        unfold createEngine at hin ⊢
        split at hin
        · cases hin
        · rename_i hnot
          rw [if_neg hnot]
          rfl
      | cancel _ | onIdle _ | others _ => cases hsection
      | _ => simp [step, hstage] at hstep

/-- Until the end there is a section to take. -/
theorem exists_section (h : Ordered s) (hend : s.stage.isEnd = false) :
    ∃ action, action.isSection = true ∧ (step poco context s action).isSome = true := by
  -- inside the engine there is one to go on with
  have hengine (hin : s.stage.inEngine = true) : ∃ engine, s.executor.httpEngine = some engine :=
    Option.isSome_iff_exists.mp (h.engine hin)
  cases hstage : s.stage with
  -- every section can be made whatever the surroundings answer; they answer well here
  | creating currentRequest => exact ⟨.createEngine 0, rfl, by simp [step, hstage]⟩
  | checkingCache =>
    obtain ⟨engine, hengine⟩ := hengine (by rw [hstage]; rfl)
    exact ⟨.checkCache unasked, rfl, by simp [step, hstage, hengine]⟩
  | starting networkRequest force =>
    obtain ⟨engine, hengine⟩ := hengine (by rw [hstage]; rfl)
    exact ⟨.start, rfl, by simp [step, hstage, hengine]⟩
  | finding attempt => exact ⟨.findAndReuseConnection, rfl, by simp [step, hstage]⟩
  | connecting attempt => exact ⟨.createConnection 0 (.ok ()), rfl, by simp [step, hstage]⟩
  | installing attempt p =>
    obtain ⟨engine, hengine⟩ := hengine (by rw [hstage]; rfl)
    exact ⟨.installConnection, rfl, by simp [step, hstage, hengine]⟩
  | sending attempt => exact ⟨.sendRequest (.ok ()), rfl, by simp [step, hstage]⟩
  | sent attempt =>
    obtain ⟨engine, hengine⟩ := hengine (by rw [hstage]; rfl)
    exact ⟨.checkAfterConnect, rfl, by simp [step, hstage, hengine]⟩
  | receiving attempt =>
    obtain ⟨engine, hengine⟩ := hengine (by rw [hstage]; rfl)
    exact ⟨.receiveResponse (.error cancelledException) true, rfl, by simp [step, hstage, hengine]⟩
  | catching networkRequest connectionReused e =>
    obtain ⟨engine, hengine⟩ := hengine (by rw [hstage]; rfl)
    exact ⟨.takeConnectionInternal, rfl, by simp [step, hstage, hengine]⟩
  | handling networkRequest connectionReused e p =>
    obtain ⟨engine, hengine⟩ := hengine (by rw [hstage]; rfl)
    exact ⟨.handle (.ok true), rfl, by simp [step, hstage, hengine]⟩
  | received networkResponse =>
    obtain ⟨engine, hengine⟩ := hengine (by rw [hstage]; rfl)
    exact ⟨.createUserResponse unasked, rfl, by simp [step, hstage, hengine]⟩
  | answered userResponse => exact ⟨.checkRetry, rfl, by simp [step, hstage]⟩
  | redirecting userResponse retryRequest =>
    exact ⟨.redirect (.ok ()), rfl, by simp [step, hstage]⟩
  | publishing userResponse => exact ⟨.publish, rfl, by simp [step, hstage]⟩
  | published => exact ⟨.finish, rfl, by simp [step, hstage]⟩
  | returned response | thrown e =>
    rw [hstage] at hend
    cases hend

/-- **`execute` comes to an end.** However other threads, the server and the cache act, the thread
takes at most 115 sections and sends at most 12 requests, and until it has returned or thrown it has
a section to take. -/
theorem sections_le {request : Request} {pool : ConnectionPoolInternal} {headers : HeaderStore}
    {actions : List Action} (hrun : Runs.run (step poco context)
      (System.init request pool headers) actions = some t) :
    actions.countP Action.isSection ≤ 115 ∧ actions.countP Action.isSend ≤ 12 ∧
      (t.stage.isEnd = false →
        ∃ action, action.isSection = true ∧ (step poco context t action).isSome = true) := by
  have hinit := ordered_init request pool headers
  have hpres (s : System) (action : Action) (s' : System) (h : Ordered s)
      (hstep : step poco context s action = some s') : Ordered s' := ordered_step h hstep
  have hsections := Runs.countP_le_of_measure Action.isSection (fun s => s.place.sectionsLeft)
    hpres (fun _ _ _ h hstep => sectionsLeft_step h.inv hstep) hinit hrun
  have hrequests := Runs.countP_le_of_measure Action.isSend (fun s => s.place.requestsLeft)
    hpres (fun _ _ _ h hstep => requestsLeft_step h.inv hstep) hinit hrun
  have hsectionsInit : (System.init request pool headers).place.sectionsLeft = 115 := rfl
  have hrequestsInit : (System.init request pool headers).place.requestsLeft = 12 := rfl
  refine ⟨by omega, by omega, fun hend => exists_section ?_ hend⟩
  exact Runs.run_invariant (fun s a s' h _ => hpres s a s' h) hinit hrun (Runs.everyStep_true _ _)

/-- What holds in each state after a `cancel`. -/
structure Cancelled (s : System) : Prop where
  inv : Inv s
  cancelled : s.executor.cancelled = true

/-- A cancelled execution is cancelled after each step. -/
theorem cancelled_step (h : Cancelled s) (hstep : step poco context s action = some s') :
    Cancelled s' :=
  ⟨step_inv h.inv hstep, (keeps_step hstep).cancelled h.cancelled⟩

theorem leads_of_cancelled (h : Cancelled s) {place' : Place}
    (hleads : Leads s.executor.cancelled s.place place') : Leads true s.place place' := by
  rwa [h.cancelled] at hleads

/-- A step after a cancel takes a section from the bound, if it is one. -/
theorem sectionsOfCancelled_step (h : Cancelled s)
    (hstep : step poco context s action = some s') :
    (if action.isSection then 1 else 0) + s'.stage.sectionsOfCancelled ≤
      s.stage.sectionsOfCancelled :=
  left_step (fun place => place.stage.sectionsOfCancelled) (fun _ => 1) h.inv
    (fun _ hleads => sectionsOfCancelled_of_leads (leads_of_cancelled h hleads)) id
    (fun _ => le_rfl) hstep

/-- A step after a cancel takes a request from the bound, if it sends one. -/
theorem requestsOfCancelled_step (h : Cancelled s)
    (hstep : step poco context s action = some s') :
    (if action.isSend then 1 else 0) + s'.stage.requestsOfCancelled ≤
      s.stage.requestsOfCancelled :=
  left_step (fun place => place.stage.requestsOfCancelled) Stage.sends h.inv
    (fun _ hleads => requestsOfCancelled_of_leads (leads_of_cancelled h hleads))
    isSection_of_isSend (fun hsend => (sends_of_step hstep hsend).ge) hstep

/-- A cancelled call that no longer returns a response. -/
structure MustThrow (s : System) : Prop extends Cancelled s where
  canReturn : s.stage.canReturn = false

/-- An execution that cannot return any more cannot after each step. -/
theorem mustThrow_step (h : MustThrow s) (hstep : step poco context s action = some s') :
    MustThrow s' := by
  refine ⟨cancelled_step h.toCancelled hstep, ?_⟩
  cases hsection : action.isSection with
  | true =>
    have hleads := leads_of_cancelled h.toCancelled (leads_of_step h.inv hsection hstep)
    by_contra hreturn
    rw [Bool.not_eq_false] at hreturn
    have hbefore : s.stage.canReturn = true := canReturn_of_leads hleads hreturn
    rw [h.canReturn] at hbefore
    cases hbefore
  | false =>
    have hplace : s'.stage = s.stage := congrArg Place.stage (place_of_step hsection hstep)
    rw [hplace, h.canReturn]

/-- **After a `cancel` little is left.** Wherever the thread was when the call was cancelled, it
takes at most 7 sections more and sends at most one request more; and it returns a response only if
it was about to look into the cache, or was past the check after the request was sent. -/
theorem sections_le_of_cancelled {request : Request} {pool : ConnectionPoolInternal}
    {headers : HeaderStore} {before after : List Action}
    (hbefore : Runs.run (step poco context) (System.init request pool headers) before = some s)
    (hcancelled : s.executor.cancelled = true)
    (hafter : Runs.run (step poco context) s after = some t) :
    after.countP Action.isSection ≤ 7 ∧ after.countP Action.isSend ≤ 1 ∧
      ∀ response, t.stage = .returned response → s.stage.canReturn = true := by
  have hinv : Inv s := Runs.run_invariant (fun _ _ _ h _ hstep => step_inv h hstep)
    (.inl (live_init request pool headers)) hbefore (Runs.everyStep_true _ _)
  have hinit : Cancelled s := ⟨hinv, hcancelled⟩
  have hpres (s : System) (action : Action) (s' : System) (h : Cancelled s)
      (hstep : step poco context s action = some s') : Cancelled s' := cancelled_step h hstep
  have hsections := Runs.countP_le_of_measure Action.isSection
    (fun s => s.stage.sectionsOfCancelled) hpres
    (fun _ _ _ h hstep => sectionsOfCancelled_step h hstep) hinit hafter
  have hrequests := Runs.countP_le_of_measure Action.isSend
    (fun s => s.stage.requestsOfCancelled) hpres
    (fun _ _ _ h hstep => requestsOfCancelled_step h hstep) hinit hafter
  have hseven : s.stage.sectionsOfCancelled ≤ 7 := by
    cases s.stage <;> simp [Stage.sectionsOfCancelled]
  have hone : s.stage.requestsOfCancelled ≤ 1 := by
    cases s.stage <;> simp [Stage.requestsOfCancelled]
  refine ⟨by omega, by omega, fun response hreturned => ?_⟩
  by_contra hreturn
  have hmust : MustThrow t := Runs.run_invariant (fun _ _ _ h _ hstep => mustThrow_step h hstep)
    ⟨hinit, Bool.not_eq_true _ ▸ hreturn⟩ hafter (Runs.everyStep_true _ _)
  have hnot := hmust.canReturn
  rw [hreturned] at hnot
  cases hnot

/-- An earlier call has left a connection. -/
def idlePool : ConnectionPoolInternal :=
  match (ConnectionPoolInternal.create 10 60).createConnection Poco.plain 7 "http://host/"
      cachingContext.context (.ok ()) with
  | .ok pool => (pool.releaseConnection 7 ⟨0⟩ false).2
  | .error _ => ConnectionPoolInternal.create 10 60

/-- A request of a user whose pool has a connection. -/
def pooledStart : System := System.init storedRequest idlePool ⟨[Headers.empty]⟩

/-- Nothing is stored, and what is received is not. -/
def findsNothing : Surroundings := { findsFresh with metadata := none, dataStream := false }

/-- An answer without a body. -/
def emptyAnswer : NetworkAnswer where
  status := 200
  reason := "OK"
  headers := []
  hasContentLength := true
  contentLength := 0
  sentRequestSec := 10
  receivedResponseSec := 11

/-- The connection of the earlier call fails, and the request is sent again on a new one. -/
def retriedRun : List Action :=
  [.createEngine 1, .checkCache findsNothing, .start, .findAndReuseConnection, .installConnection,
    .sendRequest (.error (.execution "Connection reset by peer")), .takeConnectionInternal,
    .handle (.ok true), .start, .createConnection 8 (.ok ()), .installConnection,
    .sendRequest (.ok ()), .checkAfterConnect, .receiveResponse (.ok emptyAnswer) true,
    .createUserResponse findsNothing, .checkRetry, .publish, .finish]

/-- The request is sent twice, on the connection of the pool and on a new one. -/
theorem sections_le_retriedRun : ∃ t,
    Runs.run (step Poco.plain cachingContext) pooledStart retriedRun = some t ∧
      t.stage.isEnd = true ∧ t.executor.userResponse.isSome = true ∧
      retriedRun.countP Action.isSend = 2 ∧ retriedRun.countP Action.isSection ≤ 115 ∧
      retriedRun.countP Action.isSend ≤ 12 := by
  obtain ⟨t, hrun, hend⟩ : ∃ t,
      Runs.run (step Poco.plain cachingContext) pooledStart retriedRun = some t ∧
        (t.stage.isEnd && t.executor.userResponse.isSome) = true :=
    Option.map_eq_some_iff.mp (by decide +kernel)
  rw [Bool.and_eq_true] at hend
  exact ⟨t, hrun, hend.1, hend.2, by decide, (sections_le hrun).1, (sections_le hrun).2.1⟩

/-- Where `cancel` comes in `missedRun`, the response is still returned. -/
theorem sections_le_of_cancelled_missedRun : ∃ s t,
    Runs.run (step Poco.plain cachingContext) storedStart (missedRun.take 3) = some s ∧
      s.stage.canReturn = true ∧
      Runs.run (step Poco.plain cachingContext) s (missedRun.drop 3) = some t ∧
      (missedRun.drop 3).countP Action.isSection ≤ 7 := by
  obtain ⟨s, hs, hstart⟩ : ∃ s,
      Runs.run (step Poco.plain cachingContext) storedStart (missedRun.take 3) = some s ∧
        (s.executor.cancelled && s.stage.canReturn &&
          (Runs.run (step Poco.plain cachingContext) s (missedRun.drop 3)).isSome) = true :=
    Option.map_eq_some_iff.mp (by decide +kernel)
  simp only [Bool.and_eq_true] at hstart
  obtain ⟨⟨hcancelled, hreturn⟩, hafter⟩ := hstart
  obtain ⟨t, ht⟩ := Option.isSome_iff_exists.mp hafter
  exact ⟨s, t, hs, hreturn, ht, (sections_le_of_cancelled hs hcancelled ht).1⟩

end

end EasyHttp.ExecutionCancel
