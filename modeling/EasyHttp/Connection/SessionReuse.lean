import EasyHttp.Connection.IdleConnections

/-!
# Sessions of new and of reused connections

`createConnection` configures a session from the request URL and the context;
`setInuseIfReusable` compares what the connection has kept of the URL and the context that it
was made with.

* `configureSession`: the session that `createConnection` makes, with its TLS context;
* `SameTarget`: two pairs of a URL and a context that `setInuseIfReusable` takes for the same;
* `configureSession_congr`: such pairs are given the same session;
* `KeepsOrigin`: every connection has kept what it was made with, in every run;
* `AsNew`: a connection that is handed out again is like one that has just been made;
* `reuse_agrees`: what follows for the connections that are reused: their sessions always agree,
  and they are as new unless one was cancelled while it was idle.
-/

namespace EasyHttp

/-! ## TLS contexts -/

/-- What the TLS libraries throw while a context is made. -/
inductive SslFailure where
  | ssl (message : String)
  | poco (message : String)

/-- What `SslContextCreatorImpl` calls of the TLS libraries, as they behave during one call. -/
structure SslLibrary where
  /-- the constructor of `Poco::Net::Context` -/
  newContext : (caLocation : String) → (loadDefaultCAs : Bool) → Except SslFailure Unit
  /-- whether `SSL_CTX_load_verify_locations` returns 1 -/
  loadVerifyLocations : (caFile : String) → Bool

/-- How a server's certificate is checked. -/
inductive VerificationMode where
  | none
  | relaxed
  | strict
  | once
deriving DecidableEq

/-- The protocols that can be switched off. -/
inductive SslProtocol where
  | sslv2
  | sslv3
deriving DecidableEq

/-- `Poco::Net::Context`, for `CLIENT_USE`. -/
structure PocoContext where
  caLocation : String
  verificationMode : VerificationMode
  verificationDepth : ℕ
  loadDefaultCAs : Bool
  /-- the file given to `SSL_CTX_load_verify_locations` -/
  caFile : Option String
  disabledProtocols : List SslProtocol
deriving DecidableEq

/-- `SslContextCreatorImpl` on Unix. -/
def SslContextCreatorImpl.createContext (ssl : SslLibrary) (context : EasyHttpContext) :
    Except HttpException PocoContext :=
  let rootCaDirectory := context.rootCaDirectory
  let rootCaFile := context.rootCaFile
  let isLoadDefaultCAs : Bool := rootCaDirectory = "" && rootCaFile = ""
  match ssl.newContext rootCaDirectory isLoadDefaultCAs with
  | .error (.ssl message) => .error (.ssl ("SSL error occurred. message=[" ++ message ++ "]"))
  | .error (.poco message) =>
    .error (.execution ("sendRequest initialization error occurred. message=[" ++ message ++ "]"))
  | .ok () =>
    if rootCaFile ≠ "" ∧ ssl.loadVerifyLocations rootCaFile = false then
      .error (.ssl ("can not set CaFile. [" ++ rootCaFile ++ "]"))
    else .ok {
      caLocation := rootCaDirectory
      verificationMode := .relaxed
      verificationDepth := 9
      loadDefaultCAs := isLoadDefaultCAs
      caFile := if rootCaFile ≠ "" then some rootCaFile else none
      disabledProtocols := [.sslv2, .sslv3] }

/-! ## Sessions -/

/-- A `Poco::Net::HTTPClientSession`, as it is configured. -/
structure HttpClientSession where
  host : String
  port : UInt16
  /-- the TLS context, if it is an `HTTPSClientSession` -/
  context : Option PocoContext
  proxy : Option Proxy
  timeout : Int64
  keepAlive : Bool
  keepAliveTimeout : Int64
deriving DecidableEq, Inhabited

namespace ConnectionPoolInternal

/-- In microseconds: one day more than the pool keeps a connection, whose seconds are taken as
an `int`. -/
def getKeepAliveTimeoutForPoco (pool : ConnectionPoolInternal) : Int64 :=
  pool.keepAliveTimeoutSec.toInt32.toInt64 * 1000000 + 86400000000

/-- The TLS context of a session, which only an `HTTPSClientSession` has. -/
def createSessionContext (ssl : SslLibrary) (uri : Uri) (context : EasyHttpContext) :
    Except HttpException (Option PocoContext) :=
  if icompare uri.scheme HttpConstants.Schemes.Https then
    ((SslContextCreatorImpl.createContext ssl context).mapError (sessionError uri)).map some
  else if icompare uri.scheme HttpConstants.Schemes.Http then .ok none
  else .error (.illegalArgument ("scheme is not supported. [" ++ uri.scheme ++ "]"))

/-- The first part of `createConnection`. -/
def configureSession (poco : Poco) (ssl : SslLibrary) (pool : ConnectionPoolInternal)
    (url : String) (context : EasyHttpContext) : Except HttpException HttpClientSession :=
  match poco.uri url with
  | .error message => .error (sessionError ⟨"", "", 0, ""⟩ (.poco message))
  | .ok uri => (createSessionContext ssl uri context).map fun pPocoContext => {
      host := uri.host
      port := uri.port
      context := pPocoContext
      proxy := context.proxy
      timeout := context.timeoutSec.toUInt64.toInt64 * 1000000
      keepAlive := true
      keepAliveTimeout := pool.getKeepAliveTimeoutForPoco }

variable {poco : Poco} {pool pool' : ConnectionPoolInternal} {p q : ConnectionPtr}
  {url url' : String} {context context' : EasyHttpContext} {ssl : SslLibrary}

/-- `createSession` is `configureSession` without the session. -/
theorem createSession_eq (poco : Poco) (ssl : SslLibrary) (pool : ConnectionPoolInternal)
    (url : String) (context : EasyHttpContext) :
    createSession poco url ((SslContextCreatorImpl.createContext ssl context).map fun _ => ()) =
      (configureSession poco ssl pool url context).map fun _ => () := by
  unfold createSession configureSession createSessionContext
  cases poco.uri url with
  | error message => rfl
  | ok uri =>
    dsimp only
    split
    · cases SslContextCreatorImpl.createContext ssl context <;> rfl
    split <;> rfl

/-! ## The same target -/

/-- What `setInuseIfReusable` compares. -/
structure SameTarget (poco : Poco) (url : String) (context : EasyHttpContext) (url' : String)
    (context' : EasyHttpContext) : Prop where
  uri : ∃ uri uri', poco.uri url = .ok uri ∧ poco.uri url' = .ok uri' ∧
    lower uri'.scheme = lower uri.scheme ∧ uri'.host = uri.host ∧ uri'.port = uri.port ∧
    (icompare uri.scheme HttpConstants.Schemes.Https = true →
      context'.rootCaDirectory = context.rootCaDirectory ∧
        context'.rootCaFile = context.rootCaFile)
  proxy : context'.proxy = context.proxy
  timeoutSec : context'.timeoutSec = context.timeoutSec

theorem icompare_congr {s t : String} (h : lower s = lower t) (u : String) :
    icompare s u = icompare t u := by
  unfold icompare
  rw [h]

/-- The TLS context is made of the root CA directory and file only. -/
theorem createContext_congr (hdirectory : context'.rootCaDirectory = context.rootCaDirectory)
    (hfile : context'.rootCaFile = context.rootCaFile) :
    SslContextCreatorImpl.createContext ssl context' =
      SslContextCreatorImpl.createContext ssl context := by
  unfold SslContextCreatorImpl.createContext
  rw [hdirectory, hfile]

/-- The error messages may differ in the letter case of the scheme. -/
theorem createSessionContext_congr {uri uri' : Uri} (hscheme : lower uri'.scheme = lower uri.scheme)
    (hca : icompare uri.scheme HttpConstants.Schemes.Https = true →
      context'.rootCaDirectory = context.rootCaDirectory ∧
        context'.rootCaFile = context.rootCaFile) (pPocoContext : Option PocoContext) :
    createSessionContext ssl uri' context' = .ok pPocoContext ↔
      createSessionContext ssl uri context = .ok pPocoContext := by
  unfold createSessionContext
  rw [icompare_congr hscheme, icompare_congr hscheme]
  by_cases hs : icompare uri.scheme HttpConstants.Schemes.Https = true
  · obtain ⟨hdirectory, hfile⟩ := hca hs
    rw [if_pos hs, if_pos hs, createContext_congr hdirectory hfile, Exec.map_eq_ok, Exec.map_eq_ok]
    simp only [Exec.mapError_eq_ok]
  · rw [if_neg hs, if_neg hs]
    by_cases hh : icompare uri.scheme HttpConstants.Schemes.Http = true
    · rw [if_pos hh, if_pos hh]
    · rw [if_neg hh, if_neg hh]
      exact iff_of_false nofun nofun

/-- The same target is given the same session. -/
theorem configureSession_congr (h : SameTarget poco url context url' context')
    (session : HttpClientSession) :
    configureSession poco ssl pool url' context' = .ok session ↔
      configureSession poco ssl pool url context = .ok session := by
  obtain ⟨⟨uri, uri', huri, huri', hscheme, hhost, hport, hca⟩, hproxy, htimeout⟩ := h
  unfold configureSession
  rw [huri, huri']
  dsimp only
  rw [hhost, hport, hproxy, htimeout, Exec.map_eq_ok, Exec.map_eq_ok]
  simp only [createSessionContext_congr hscheme hca]

/-! ## What a connection has kept -/

/-- The connection has kept what it was made with; its status may have changed. -/
def KeepsOrigin (poco : Poco) (url : String) (context : EasyHttpContext)
    (c : ConnectionInternal) : Prop :=
  ∃ c₀, ConnectionInternal.create poco url context = .ok c₀ ∧
    c = { c₀ with
      connectionStatus := c.connectionStatus
      cancelled := c.cancelled
      connectionStatusListener := c.connectionStatusListener }

/-- What is reused leads where the pair of the request leads. -/
theorem sameTarget_of_isReusable {c : ConnectionInternal} (hkeeps : KeepsOrigin poco url context c)
    (hreusable : c.isReusable poco url' context' = true) :
    SameTarget poco url context url' context' := by
  obtain ⟨c₀, hcreate, hc⟩ := hkeeps
  unfold ConnectionInternal.create at hcreate
  cases huri : poco.uri url with
  | error message =>
    rw [huri] at hcreate
    cases hcreate
  | ok uri =>
    rw [huri] at hcreate
    cases hcreate
    rw [hc] at hreusable
    unfold ConnectionInternal.isReusable at hreusable
    cases huri' : poco.uri url' with
    | error message =>
      rw [huri'] at hreusable
      simp at hreusable
    | ok uri' =>
      rw [huri'] at hreusable
      simp only [Bool.and_eq_true, decide_eq_true_eq] at hreusable
      obtain ⟨⟨⟨⟨-, ⟨hscheme, hhost⟩, hport⟩, hproxy⟩, hca⟩, htimeout⟩ := hreusable
      refine ⟨⟨uri, uri', huri, huri', of_decide_eq_true hscheme, hhost, hport, fun hs => ?_⟩,
        hproxy, htimeout⟩
      rw [if_pos hs, Bool.and_eq_true, decide_eq_true_eq, decide_eq_true_eq] at hca
      exact hca

/-! ## What the methods keep -/

/-- The connections of `pool'` are connections of `pool`, and all lead where they led. -/
structure KeepsTargets (pool pool' : ConnectionPoolInternal) : Prop where
  keepAliveTimeoutSec : pool'.keepAliveTimeoutSec = pool.keepAliveTimeoutSec
  connections : ∀ q, pool'.connections q = { pool.connections q with
    connectionStatus := (pool'.connections q).connectionStatus
    cancelled := (pool'.connections q).cancelled
    connectionStatusListener := (pool'.connections q).connectionStatusListener }
  pooled : ∀ q, pool'.connectionControls.find? q ≠ none → pool.connectionControls.find? q ≠ none

theorem KeepsTargets.refl (pool : ConnectionPoolInternal) : KeepsTargets pool pool :=
  ⟨rfl, fun _ => rfl, fun _ h => h⟩

theorem KeepsTargets.trans {mid : ConnectionPoolInternal} (h : KeepsTargets pool mid)
    (h' : KeepsTargets mid pool') : KeepsTargets pool pool' := by
  refine ⟨h'.keepAliveTimeoutSec.trans h.keepAliveTimeoutSec, fun q => ?_,
    fun q hq => h.pooled q (h'.pooled q hq)⟩
  have hmid := h.connections q
  have hafter := h'.connections q
  rw [hmid] at hafter
  exact hafter

theorem setConnection_keepsTargets {c : ConnectionInternal}
    (hc : c = { pool.connections p with
      connectionStatus := c.connectionStatus
      cancelled := c.cancelled
      connectionStatusListener := c.connectionStatusListener }) :
    KeepsTargets pool (pool.setConnection p c) := by
  refine ⟨rfl, fun q => ?_, fun _ h => h⟩
  show Function.update pool.connections p c q = { pool.connections q with
    connectionStatus := (Function.update pool.connections p c q).connectionStatus
    cancelled := (Function.update pool.connections p c q).cancelled
    connectionStatusListener :=
      (Function.update pool.connections p c q).connectionStatusListener }
  by_cases hq : q = p
  · rw [hq, Function.update_self]
    exact hc
  · rw [Function.update_of_ne hq]

theorem removeConnection_keepsTargets (pool : ConnectionPoolInternal) (p : ConnectionPtr) :
    KeepsTargets pool (pool.removeConnection p).2 := by
  refine ⟨?_, fun q => ?_, fun q hq => ?_⟩
  · unfold removeConnection
    split <;> rfl
  · rw [removeConnection_connections]
  · obtain ⟨task, hfind⟩ := Option.ne_none_iff_exists'.mp hq
    rw [(removeConnection_within pool p q task hfind).1]
    exact Option.some_ne_none task

theorem cancelTask_keepsTargets (pool : ConnectionPoolInternal) (task : TaskPtr) :
    KeepsTargets pool (pool.cancelTask task) :=
  ⟨rfl, fun _ => rfl, fun _ h => h⟩

theorem updateConnections_keepsTargets (pool : ConnectionPoolInternal) :
    KeepsTargets pool pool.updateConnections.2 := by
  rcases pool.updateConnections_cases with heq | ⟨p, task, heq⟩
  · rw [heq]
    exact .refl pool
  · rw [heq]
    exact (cancelTask_keepsTargets pool task).trans (removeConnection_keepsTargets _ p)

/-- A pooled connection is mapped to something else. -/
theorem keepsTargets_set {task : Option TaskPtr} (hp : pool.connectionControls.find? p ≠ none)
    (hcontrols : pool'.connectionControls = pool.connectionControls.set p task)
    (hconnections : pool'.connections = pool.connections)
    (htimeout : pool'.keepAliveTimeoutSec = pool.keepAliveTimeoutSec) :
    KeepsTargets pool pool' := by
  refine ⟨htimeout, fun q => ?_, fun q hq => ?_⟩
  · rw [hconnections]
  · rw [hcontrols, SortedMap.find?_set] at hq
    by_cases heq : q = p
    · rw [heq]
      exact hp
    · rw [if_neg heq] at hq
      exact hq

/-- What is handed out leads where it was asked to lead. -/
theorem findAndReuseConnection_reusable
    (h : (pool.findAndReuseConnection poco url context).1 = some p) :
    pool.connectionControls.find? p ≠ none ∧
      (pool.connections p).isReusable poco url context = true := by
  unfold findAndReuseConnection at h
  split at h
  · cases h
  · rename_i p' task hfound
    cases h
    have hreusable := List.find?_some hfound
    rw [ConnectionInternal.setInuseIfReusable_fst] at hreusable
    rw [SortedMap.find?_eq_some_iff.mpr (List.mem_of_find?_eq_some hfound)]
    exact ⟨Option.some_ne_none task, hreusable⟩

theorem findAndReuseConnection_keepsTargets (poco : Poco) (pool : ConnectionPoolInternal)
    (url : String) (context : EasyHttpContext) :
    KeepsTargets pool (pool.findAndReuseConnection poco url context).2 := by
  cases hfound : (pool.findAndReuseConnection poco url context).1 with
  | none =>
    rw [findAndReuseConnection_none hfound]
    exact .refl pool
  | some p =>
    obtain ⟨⟨task, hfind⟩, -, hcontrols, hconnections⟩ := findAndReuseConnection_some hfound
    have hp : pool.connectionControls.find? p ≠ none := by
      rw [hfind]
      exact Option.some_ne_none task
    have hset : KeepsTargets pool
        (pool.setConnection p { pool.connections p with connectionStatus := .inuse }) :=
      setConnection_keepsTargets rfl
    refine hset.trans (keepsTargets_set hp hcontrols hconnections ?_)
    unfold findAndReuseConnection
    split
    · rfl
    · rename_i task _
      cases task <;> rfl

theorem releaseConnection_keepsTargets (pool : ConnectionPoolInternal) (p : ConnectionPtr)
    (now : Timestamp) (listenerInvalidated : Bool) :
    KeepsTargets pool (pool.releaseConnection p now listenerInvalidated).2 := by
  cases hfind : pool.connectionControls.find? p with
  | none =>
    rw [releaseConnection_removed now listenerInvalidated hfind]
    exact .refl pool
  | some task =>
    cases hstatus : (pool.connections p).connectionStatus with
    | idle =>
      rw [releaseConnection_idle now listenerInvalidated hfind hstatus]
      exact setConnection_keepsTargets rfl
    | inuse =>
      have hset : KeepsTargets pool
          (pool.setConnection p (pool.releasedConnection p listenerInvalidated)) :=
        setConnection_keepsTargets rfl
      rw [releaseConnection_inuse now listenerInvalidated hfind hstatus]
      split
      · exact hset.trans (removeConnection_keepsTargets _ p)
      · have hp : pool.connectionControls.find? p ≠ none := by
          rw [hfind]
          exact Option.some_ne_none task
        have htimer : KeepsTargets pool (pool.withTimer now listenerInvalidated p) :=
          hset.trans (keepsTargets_set hp rfl rfl rfl)
        exact htimer.trans (updateConnections_keepsTargets _)

theorem onKeepAliveTimeoutExpired_keepsTargets (pool : ConnectionPoolInternal) (task : TaskPtr) :
    KeepsTargets pool (pool.onKeepAliveTimeoutExpired task) := by
  refine ⟨?_, fun q => ?_, fun q hq => ?_⟩
  · unfold onKeepAliveTimeoutExpired
    split <;> rfl
  · rw [onKeepAliveTimeoutExpired_connections]
  · obtain ⟨timer, hfind⟩ := Option.ne_none_iff_exists'.mp hq
    rw [(onKeepAliveTimeoutExpired_within pool task q timer hfind).1]
    exact Option.some_ne_none timer

end ConnectionPoolInternal

/-! ## Runs -/

namespace SessionReuse

open ConnectionPoolInternal

/-- What a connection was made with. -/
structure Origin where
  url : String
  context : EasyHttpContext
  ssl : SslLibrary

/-- The pool, with the session of each connection and, as a ghost, what it was made with. -/
structure System where
  pool : ConnectionPoolInternal
  sessions : ConnectionPtr → HttpClientSession
  origins : ConnectionPtr → Option Origin

/-- An empty pool without sessions. -/
def System.initial (keepAliveIdleCountMax : ℕ) (keepAliveTimeoutSec : Int64) : System where
  pool := create keepAliveIdleCountMax keepAliveTimeoutSec
  sessions := fun _ => default
  origins := fun _ => none

/-- A connection with its session is made, or the pool does something else. -/
inductive Action where
  | createConnection (p : ConnectionPtr) (origin : Origin)
  /-- any other method of the pool or of one of its connections -/
  | other (a : Operation)

/-- One action; a new session is configured for the place it was asked for. -/
def step (poco : Poco) (s : System) : Action → Option System
  | .createConnection p origin =>
    if s.pool.connectionControls.find? p ≠ none then none
    else
      let sslContext := SslContextCreatorImpl.createContext origin.ssl origin.context
      match s.pool.createConnection poco p origin.url origin.context (sslContext.map fun _ => ()),
          configureSession poco origin.ssl s.pool origin.url origin.context with
      | .ok pool, .ok session => some {
          pool := pool
          sessions := Function.update s.sessions p session
          origins := Function.update s.origins p (some origin) }
      | _, _ => some s
  | .other (.createConnection ..) => none
  | .other a => (ConnectionPoolInternal.step poco s.pool a).map fun pool => { s with pool := pool }

/-- Every connection has the session that was configured for its origin. -/
structure Inv (poco : Poco) (s : System) : Prop where
  keeps : ∀ p origin, s.origins p = some origin →
    KeepsOrigin poco origin.url origin.context (s.pool.connections p) ∧
      configureSession poco origin.ssl s.pool origin.url origin.context = .ok (s.sessions p)
  pooled : ∀ p, s.pool.connectionControls.find? p ≠ none → s.origins p ≠ none

variable {poco : Poco} {s s' : System} {p : ConnectionPtr} {url : String}
  {context : EasyHttpContext}

theorem inv_initial (keepAliveIdleCountMax : ℕ) (keepAliveTimeoutSec : Int64) :
    Inv poco (System.initial keepAliveIdleCountMax keepAliveTimeoutSec) :=
  ⟨nofun, fun _ h => (h rfl).elim⟩

/-- The session depends on the pool only by its timeout. -/
theorem configureSession_pool {pool pool' : ConnectionPoolInternal} {ssl : SslLibrary}
    (h : pool'.keepAliveTimeoutSec = pool.keepAliveTimeoutSec) :
    configureSession poco ssl pool' url context = configureSession poco ssl pool url context := by
  unfold configureSession getKeepAliveTimeoutForPoco
  rw [h]

theorem KeepsOrigin.of_keepsTargets {pool pool' : ConnectionPoolInternal}
    (h : KeepsOrigin poco url context (pool.connections p)) (hkeeps : KeepsTargets pool pool') :
    KeepsOrigin poco url context (pool'.connections p) := by
  obtain ⟨c₀, hcreate, hc⟩ := h
  refine ⟨c₀, hcreate, ?_⟩
  have hafter := hkeeps.connections p
  rw [hc] at hafter
  exact hafter

theorem inv_keepsTargets (hinv : Inv poco s) (hkeeps : KeepsTargets s.pool s'.pool)
    (hsessions : s'.sessions = s.sessions) (horigins : s'.origins = s.origins) : Inv poco s' := by
  refine ⟨fun p origin horigin => ?_, fun p hp => ?_⟩
  · rw [horigins] at horigin
    obtain ⟨hkept, hsession⟩ := hinv.keeps p origin horigin
    refine ⟨KeepsOrigin.of_keepsTargets hkept hkeeps, ?_⟩
    rw [configureSession_pool hkeeps.keepAliveTimeoutSec, hsessions]
    exact hsession
  · rw [horigins]
    exact hinv.pooled p (hkeeps.pooled p hp)

/-- A new connection has the session of its origin. -/
theorem inv_createConnection {pool : ConnectionPoolInternal} {origin : Origin}
    {session : HttpClientSession} {sslContext : Except HttpException Unit} (hinv : Inv poco s)
    (hcreate : s.pool.createConnection poco p origin.url origin.context sslContext = .ok pool)
    (hsession : configureSession poco origin.ssl s.pool origin.url origin.context = .ok session) :
    Inv poco {
      pool := pool
      sessions := Function.update s.sessions p session
      origins := Function.update s.origins p (some origin) } := by
  -- the session has been configured, and the connection is made
  obtain ⟨_, -, hcreate⟩ := Exec.exists_of_bind_ok hcreate
  obtain ⟨c, hc, hpool⟩ := Exec.exists_of_bind_ok hcreate
  cases hpool
  refine ⟨fun q origin' horigin => ?_, fun q hq => ?_⟩
  · replace horigin : Function.update s.origins p (some origin) q = some origin' := horigin
    show KeepsOrigin poco origin'.url origin'.context (Function.update s.pool.connections p c q) ∧
      configureSession poco origin'.ssl s.pool origin'.url origin'.context =
        .ok (Function.update s.sessions p session q)
    -- the new connection has this session; the others keep theirs
    by_cases heq : q = p
    · rw [heq, Function.update_self] at horigin
      cases horigin
      rw [heq, Function.update_self, Function.update_self]
      exact ⟨⟨c, hc, rfl⟩, hsession⟩
    · rw [Function.update_of_ne heq] at horigin
      rw [Function.update_of_ne heq, Function.update_of_ne heq]
      exact hinv.keeps q origin' horigin
  · replace hq : (s.pool.connectionControls.set p none).find? q ≠ none := hq
    show Function.update s.origins p (some origin) q ≠ none
    rw [SortedMap.find?_set] at hq
    by_cases heq : q = p
    · rw [heq, Function.update_self]
      exact Option.some_ne_none origin
    · rw [if_neg heq] at hq
      rw [Function.update_of_ne heq]
      exact hinv.pooled q hq

/-- Every method but `createConnection` keeps where the connections lead. -/
theorem step_other_keepsTargets {pool pool' : ConnectionPoolInternal} {a : Operation}
    (hnew : ∀ p url context sslContext, a ≠ .createConnection p url context sslContext)
    (hstep : ConnectionPoolInternal.step poco pool a = some pool') : KeepsTargets pool pool' := by
  cases a with
  | findAndReuseConnection url context =>
    cases hstep
    exact findAndReuseConnection_keepsTargets poco pool url context
  | createConnection p url context sslContext => exact (hnew p url context sslContext rfl).elim
  | releaseConnection p now listenerInvalidated =>
    cases hstep
    exact releaseConnection_keepsTargets pool p now listenerInvalidated
  | removeConnection p =>
    cases hstep
    exact removeConnection_keepsTargets pool p
  | onKeepAliveTimeoutExpired task =>
    cases hstep
    exact onKeepAliveTimeoutExpired_keepsTargets pool task
  | cancel p =>
    cases hstep
    exact setConnection_keepsTargets rfl
  | setConnectionStatusListener p listener =>
    cases hstep
    exact setConnection_keepsTargets rfl

/-- Actions other than `createConnection` make no session. -/
theorem step_other {a : Operation} (hstep : step poco s (.other a) = some s') :
    (∀ p url context sslContext, a ≠ .createConnection p url context sslContext) ∧
      ∃ pool, ConnectionPoolInternal.step poco s.pool a = some pool ∧
        s' = { s with pool := pool } := by
  have hmap : ∀ x : Option ConnectionPoolInternal,
      (x.map fun pool => { s with pool := pool }) = some s' →
        ∃ pool, x = some pool ∧ s' = { s with pool := pool } := by
    intro x hx
    obtain ⟨pool, hpool, heq⟩ := Option.map_eq_some_iff.mp hx
    exact ⟨pool, hpool, heq.symm⟩
  cases a with
  | createConnection p url context sslContext => cases hstep
  | _ => exact ⟨nofun, hmap _ hstep⟩

/-- Each step keeps the invariant. -/
theorem step_inv {a : Action} (hinv : Inv poco s) (hstep : step poco s a = some s') :
    Inv poco s' := by
  cases a with
  | createConnection p origin =>
    unfold step at hstep
    dsimp only at hstep
    split at hstep
    · cases hstep
    split at hstep
    · rename_i hcreate hsession
      cases hstep
      exact inv_createConnection hinv hcreate hsession
    · cases hstep
      exact hinv
  | other a =>
    obtain ⟨hnew, pool, hpool, heq⟩ := step_other hstep
    rw [heq]
    exact inv_keepsTargets hinv (step_other_keepsTargets hnew hpool) rfl rfl

/-! ## Reuse and creation -/

/-- What leads where `p` was made to lead: `createConnection` for `url` and `context` would have
configured the session of `p`, and whatever the TLS libraries do, it configures what it does for
the origin of `p`. -/
structure Agrees (poco : Poco) (s : System) (p : ConnectionPtr) (origin : Origin) (url : String)
    (context : EasyHttpContext) : Prop where
  made : s.origins p = some origin
  target : SameTarget poco origin.url origin.context url context
  created : configureSession poco origin.ssl s.pool url context = .ok (s.sessions p)
  same : ∀ ssl session, configureSession poco ssl s.pool url context = .ok session ↔
    configureSession poco ssl s.pool origin.url origin.context = .ok session

theorem Inv.agrees (hinv : Inv poco s) (hp : s.pool.connectionControls.find? p ≠ none)
    (hreusable : (s.pool.connections p).isReusable poco url context = true) :
    ∃ origin, Agrees poco s p origin url context := by
  obtain ⟨origin, horigin⟩ := Option.ne_none_iff_exists'.mp (hinv.pooled p hp)
  obtain ⟨hkeeps, hsession⟩ := hinv.keeps p origin horigin
  have htarget := sameTarget_of_isReusable hkeeps hreusable
  have hsame := fun ssl => @configureSession_congr poco s.pool _ _ _ _ ssl htarget
  exact ⟨origin, horigin, htarget, (hsame origin.ssl _).mpr hsession, hsame⟩

/-! ### Connections that are as new -/

/-- What a user sees of `c` besides its session is what is seen of `new`: the state, and what it
leads to. The letters of the scheme may differ in case. -/
structure AsNew (c new : ConnectionInternal) : Prop where
  connectionStatus : c.connectionStatus = new.connectionStatus
  cancelled : c.cancelled = new.cancelled
  scheme : lower c.scheme = lower new.scheme
  hostName : c.hostName = new.hostName
  hostPort : c.hostPort = new.hostPort
  proxy : c.proxy = new.proxy
  timeoutSec : c.timeoutSec = new.timeoutSec

/-- No connection is cancelled while it is idle in the pool. -/
def CancelsInUse (s : System) : Action → Prop
  | .other (.cancel p) => ∀ task, s.pool.connectionControls.find? p = some task →
    (s.pool.connections p).connectionStatus = .inuse
  | _ => True

/-- Then no method but `createConnection` leaves a cancelled connection idle in the pool. -/
theorem step_reusable {pool pool' : ConnectionPoolInternal} {a : Operation}
    (hwf : pool.WellFormed) (h : pool.Reusable)
    (hnew : ∀ p url context sslContext, a ≠ .createConnection p url context sslContext)
    (hcancels : ∀ q, a = .cancel q → ∀ task, pool.connectionControls.find? q = some task →
      (pool.connections q).connectionStatus = .inuse)
    (hstep : ConnectionPoolInternal.step poco pool a = some pool') :
    pool'.WellFormed ∧ pool'.Reusable := by
  cases a with
  | findAndReuseConnection url context =>
    cases hstep
    -- what is handed out is in use, so nothing is to be shown for it
    cases hfound : (pool.findAndReuseConnection poco url context).1 with
    | none =>
      rw [findAndReuseConnection_none hfound]
      exact ⟨hwf, h⟩
    | some q =>
      obtain ⟨-, -, hcontrols, hconnections⟩ := findAndReuseConnection_some hfound
      exact ⟨wellFormed_set hwf rfl hcontrols hconnections, h.set rfl hcontrols hconnections⟩
  | createConnection q url context sslContext => exact (hnew q url context sslContext rfl).elim
  | releaseConnection q now listenerInvalidated =>
    cases hstep
    exact ⟨(releaseConnection_released hwf now listenerInvalidated).wellFormed,
      h.releaseConnection hwf now listenerInvalidated⟩
  | removeConnection q =>
    cases hstep
    -- when connections leave, those that stay are as they were
    have hwithin := removeConnection_within pool q
    exact ⟨hwithin.wellFormed hwf, h.within hwithin fun _ => by rw [removeConnection_connections]⟩
  | onKeepAliveTimeoutExpired task =>
    cases hstep
    have hwithin := onKeepAliveTimeoutExpired_within pool task
    exact ⟨hwithin.wellFormed hwf,
      h.within hwithin fun _ => by rw [onKeepAliveTimeoutExpired_connections]⟩
  | cancel q =>
    cases hstep
    have hwithin : (pool.setConnection q (pool.connections q).cancel).Within pool :=
      setConnection_within rfl
    refine ⟨hwithin.wellFormed hwf, fun r task hfind hidle => ?_⟩
    obtain ⟨hbefore, hstatus⟩ := hwithin r task hfind
    rw [hstatus] at hidle
    show (Function.update pool.connections q _ r).cancelled = false
    by_cases hr : r = q
    · -- what is cancelled is in use
      rw [hr] at hbefore hidle
      rw [hcancels q rfl task hbefore] at hidle
      cases hidle
    · rw [Function.update_of_ne hr]
      exact h r task hbefore hidle
  | setConnectionStatusListener q listener =>
    cases hstep
    have hwithin : (pool.setListener q listener).Within pool := setConnection_within rfl
    exact ⟨hwithin.wellFormed hwf, h.setListener q listener⟩

/-- One step of a run in which only connections in use are cancelled. -/
theorem step_reusable_of_cancelsInUse {a : Action}
    (h : s.pool.WellFormed ∧ s.pool.Reusable) (hcancels : CancelsInUse s a)
    (hstep : step poco s a = some s') : s'.pool.WellFormed ∧ s'.pool.Reusable := by
  cases a with
  | createConnection p origin =>
    unfold step at hstep
    dsimp only at hstep
    split at hstep
    · cases hstep
    split at hstep
    · rename_i hcreate hsession
      cases hstep
      obtain ⟨c, huse, -, hcontrols, hconnections⟩ := createConnection_ok hcreate
      exact ⟨wellFormed_set h.1 huse hcontrols hconnections, h.2.set huse hcontrols hconnections⟩
    · cases hstep
      exact h
  | other a =>
    obtain ⟨hnew, pool, hpool, heq⟩ := step_other hstep
    rw [heq]
    refine step_reusable h.1 h.2 hnew (fun q hq => ?_) hpool
    rw [hq] at hcancels
    exact hcancels

/-- Handed out again, a connection that is not cancelled is as new. -/
theorem asNew_of_isReusable {c new : ConnectionInternal}
    (hreusable : c.isReusable poco url context = true) (hcancelled : c.cancelled = false)
    (hnew : ConnectionInternal.create poco url context = .ok new) :
    AsNew { c with connectionStatus := .inuse } new := by
  unfold ConnectionInternal.create at hnew
  unfold ConnectionInternal.isReusable at hreusable
  cases huri : poco.uri url with
  | error message =>
    rw [huri] at hnew
    cases hnew
  | ok uri =>
    rw [huri] at hnew hreusable
    cases hnew
    simp only [Bool.and_eq_true, decide_eq_true_eq] at hreusable
    obtain ⟨⟨⟨⟨-, ⟨hscheme, hhost⟩, hport⟩, hproxy⟩, -⟩, htimeout⟩ := hreusable
    exact ⟨rfl, hcancelled, (of_decide_eq_true hscheme).symm, hhost.symm, hport.symm, hproxy.symm,
      htimeout.symm⟩

/-- In every run, a pooled connection that takes itself for reusable, and so also the one that
the pool hands out, has the session that a new connection would have. If no connection has been
cancelled while it was idle, the one that is handed out is in every other respect as a new one. -/
theorem reuse_agrees (poco : Poco) (keepAliveIdleCountMax : ℕ) (keepAliveTimeoutSec : Int64)
    (actions : List Action) (s : System) (url : String) (context : EasyHttpContext)
    (hrun : Runs.run (step poco) (System.initial keepAliveIdleCountMax keepAliveTimeoutSec)
      actions = some s) :
    (∀ p, s.pool.connectionControls.find? p ≠ none →
      ((s.pool.connections p).setInuseIfReusable poco url context).1 = true →
        ∃ origin, Agrees poco s p origin url context) ∧
    (∀ p, (s.pool.findAndReuseConnection poco url context).1 = some p →
      ∃ origin, Agrees poco s p origin url context) ∧
    (Runs.EveryStep (step poco) CancelsInUse
        (System.initial keepAliveIdleCountMax keepAliveTimeoutSec) actions →
      ∀ p new, (s.pool.findAndReuseConnection poco url context).1 = some p →
        ConnectionInternal.create poco url context = .ok new →
          AsNew ((s.pool.findAndReuseConnection poco url context).2.connections p) new) := by
  have hinv : Inv poco s := Runs.run_invariant (fun _ _ _ h _ hstep => step_inv h hstep)
    (inv_initial _ _) hrun (Runs.everyStep_true _ _)
  refine ⟨fun p hp hreuse => ?_, fun p hfound => ?_, fun hcancels p new hfound hnew => ?_⟩
  · rw [ConnectionInternal.setInuseIfReusable_fst] at hreuse
    exact hinv.agrees hp hreuse
  · obtain ⟨hp, hreusable⟩ := findAndReuseConnection_reusable hfound
    exact hinv.agrees hp hreusable
  · have hpool : s.pool.WellFormed ∧ s.pool.Reusable := Runs.run_invariant
      (fun _ _ _ h hcancels hstep => step_reusable_of_cancelsInUse h hcancels hstep)
      ⟨wellFormed_create _ _, fun _ _ hfind => by cases hfind⟩ hrun hcancels
    obtain ⟨-, hreusable⟩ := findAndReuseConnection_reusable hfound
    obtain ⟨⟨task, hfind⟩, hidle, -, hconnections⟩ := findAndReuseConnection_some hfound
    rw [hconnections, Function.update_self]
    exact asNew_of_isReusable hreusable (hpool.2 p task hfind hidle) hnew

/-- A connection is made, released and asked for again, with the scheme in capital letters. -/
def reuseRun : List Action :=
  let ssl : SslLibrary := ⟨fun _ _ => .ok (), fun _ => true⟩
  [.createConnection 3 ⟨"https://a.com/x", ⟨some ⟨"proxy", 8080⟩, "", "ca.pem", 60⟩, ssl⟩,
    .other (.releaseConnection 3 ⟨10⟩ false)]

theorem reuse_agrees_reuseRun :
    ∃ s ∈ Runs.run (step Poco.plain) (System.initial 5 60) reuseRun,
      (∃ origin, Agrees Poco.plain s 3 origin "HTTPS://a.com/y"
        ⟨some ⟨"proxy", 8080⟩, "", "ca.pem", 60⟩) ∧
      ∀ new, ConnectionInternal.create Poco.plain "HTTPS://a.com/y"
          ⟨some ⟨"proxy", 8080⟩, "", "ca.pem", 60⟩ = .ok new →
        AsNew ((s.pool.findAndReuseConnection Poco.plain "HTTPS://a.com/y"
          ⟨some ⟨"proxy", 8080⟩, "", "ca.pem", 60⟩).2.connections 3) new := by
  have hran : ∃ s ∈ Runs.run (step Poco.plain) (System.initial 5 60) reuseRun,
      (s.pool.findAndReuseConnection Poco.plain "HTTPS://a.com/y"
        ⟨some ⟨"proxy", 8080⟩, "", "ca.pem", 60⟩).1 = some 3 := by decide +kernel
  obtain ⟨s, hrun, hfound⟩ := hran
  have hcancels : Runs.EveryStep (step Poco.plain) CancelsInUse (System.initial 5 60) reuseRun :=
    ⟨trivial, trivial, trivial⟩
  obtain ⟨-, hagrees, hnew⟩ := reuse_agrees Poco.plain 5 60 reuseRun s _ _ hrun
  exact ⟨s, hrun, hagrees 3 hfound, fun new => hnew hcancels 3 new hfound⟩

/-- It is cancelled while it is idle, by an `HttpEngine::cancel` that had found it before it was
released. -/
def cancelIdleRun : List Action := reuseRun ++ [.other (.cancel 3)]

/-- The pool hands it out all the same, and its socket is shut down. -/
theorem not_asNew_cancelIdle :
    ∃ s ∈ Runs.run (step Poco.plain) (System.initial 5 60) cancelIdleRun,
      (s.pool.findAndReuseConnection Poco.plain "https://a.com/x"
        ⟨some ⟨"proxy", 8080⟩, "", "ca.pem", 60⟩).1 = some 3 ∧
      ∃ new, ConnectionInternal.create Poco.plain "https://a.com/x"
          ⟨some ⟨"proxy", 8080⟩, "", "ca.pem", 60⟩ = .ok new ∧
        ¬AsNew ((s.pool.findAndReuseConnection Poco.plain "https://a.com/x"
          ⟨some ⟨"proxy", 8080⟩, "", "ca.pem", 60⟩).2.connections 3) new := by
  have hran : ∃ s ∈ Runs.run (step Poco.plain) (System.initial 5 60) cancelIdleRun,
      (s.pool.findAndReuseConnection Poco.plain "https://a.com/x"
        ⟨some ⟨"proxy", 8080⟩, "", "ca.pem", 60⟩).1 = some 3 ∧
      ((s.pool.findAndReuseConnection Poco.plain "https://a.com/x"
        ⟨some ⟨"proxy", 8080⟩, "", "ca.pem", 60⟩).2.connections 3).cancelled = true := by
    decide +kernel
  obtain ⟨s, hrun, hfound, hcancelled⟩ := hran
  refine ⟨s, hrun, hfound, _, rfl, fun h => ?_⟩
  exact absurd (hcancelled.symm.trans h.cancelled) (by decide)

end SessionReuse

end EasyHttp
