import EasyHttp.Body.ResponseBodyStreamWithoutCaching
import EasyHttp.Connection.PoolClients

/-!
# Connections that are used again

Clients of the pool are attempts of an engine to get a response. An attempt takes a connection,
sends and receives over it, and then the stream of the response holds the connection until it is
closed. The attempts, the streams and the timers of the pool take their steps in any order; no
call is cancelled.

* `Session`: what a connection's session is found with;
* `Clean`: the connection can be used again;
* `idle_connections_clean`: in every run the idle connections of the pool are clean.
-/

namespace EasyHttp.ConnectionReuse

open PoolClients

/-- The last response over a connection: whether the connection may be kept, and whether the
stream of the body was at its end when the connection was released. -/
structure LastResponse where
  keepAlive : Bool
  releasedAtEof : Bool := false
deriving DecidableEq

/-- A `Poco::Net::HTTPClientSession`: the timeout it was given when it was made, and that of its
socket. -/
structure Session where
  timeout : Int64 := 0
  receiveTimeout : Int64 := 0
  lastResponse : Option LastResponse := none
deriving DecidableEq

/-- The stream of a response, with or without a cache behind it. -/
inductive BodyStream where
  | withoutCaching (s : ResponseBodyStreamWithoutCaching)
  | withCaching (s : ResponseBodyStreamWithCaching)

namespace BodyStream

/-- The part both kinds share. -/
def base : BodyStream → ResponseBodyStreamInternal
  | withoutCaching s => s.base
  | withCaching s => s.base

/-- The connection that it keeps until it is closed. -/
def connectionInternal : BodyStream → Option ConnectionPtr
  | withoutCaching s => s.connectionInternal
  | withCaching s => s.connectionInternal

/-- A read by the user. -/
def read (buffer : Bool) (readBytes : UInt64) (env : CachingRead) : BodyStream → BodyStream
  | withoutCaching s => withoutCaching (s.read buffer readBytes env.sgetn).2
  | withCaching s => withCaching (s.read buffer readBytes env).2

/-- Only a stream without caching is exchanged. -/
def exchange (response : Response) : BodyStream → Option BodyStream
  | withoutCaching s => some (withCaching (s.exchangeToResponseBodyStreamWithCaching response).1)
  | withCaching _ => none

end BodyStream

/-- What a `close` meets, whichever stream it is. -/
structure Close where
  withoutCaching : ResponseBodyStreamInternal.SkipAll Sgetn
  withCaching : CachingClose

variable (makeCacheKey : HttpMethod → String → String)

/-- What a `close` asks of the pool, the stream, and the receive timeout. -/
def BodyStream.close (receiveTimeout : Int64) (env : Close) :
    BodyStream → Option PoolCall × BodyStream × Int64
  | withoutCaching s =>
    let (poolCall, s, receiveTimeout) := s.close receiveTimeout env.withoutCaching
    (poolCall, .withoutCaching s, receiveTimeout)
  | withCaching s =>
    let closed := s.close makeCacheKey receiveTimeout env.withCaching
    (closed.poolCall, .withCaching closed.stream, closed.receiveTimeout)

/-- The pool, its sessions and the bodies of the clients. -/
structure System where
  clients : PoolClients.System
  sessions : ConnectionPtr → Session
  /-- the stream of a client's response -/
  bodies : Client → Option BodyStream

/-- No client has a connection. -/
def System.initial (keepAliveIdleCountMax : ℕ) (keepAliveTimeoutSec : Int64) : System where
  clients := PoolClients.System.initial keepAliveIdleCountMax keepAliveTimeoutSec
  sessions := fun _ => {}
  bodies := fun _ => none

/-- What the clients and the timers do. -/
inductive Action where
  /-- The first part of `getConnection`. -/
  | findAndReuseConnection (client : Client) (url : String) (context : EasyHttpContext)
  | createConnection (client : Client) (p : ConnectionPtr) (url : String)
    (context : EasyHttpContext) (sslContext : Except HttpException Unit)
  /-- Sending or receiving threw, and the engine removes the connection. -/
  | fail (client : Client)
  /-- A response came; without keep-alive its connection is removed from the pool. -/
  | receiveResponse (client : Client) (content : IStream) (keepAlive : Bool)
  | read (client : Client) (buffer : Bool) (readBytes : UInt64) (env : CachingRead)
  | exchange (client : Client) (response : Response)
  | close (client : Client) (env : Close) (now : Timestamp) (listenerInvalidated : Bool)
  /-- A thread removes a connection, in use or not. -/
  | removeByOther (p : ConnectionPtr)
  | setConnectionStatusListener (p : ConnectionPtr) (listener : Option ListenerPtr)
  | onKeepAliveTimeoutExpired (task : TaskPtr)

/-- A session replaced. -/
def System.setSession (s : System) (p : ConnectionPtr) (session : Session) : System :=
  { s with sessions := Function.update s.sessions p session }

/-- The body of one client replaced. -/
def System.setBody (s : System) (client : Client) (body : BodyStream) : System :=
  { s with bodies := Function.update s.bodies client (some body) }

/-- `Poco::Timespan(timeoutSec, 0)` -/
def timespan (timeoutSec : UInt32) : Int64 := Int64.ofNat timeoutSec.toNat * 1000000

/-- The pool is asked by the stream of a client, which then has no connection any more. -/
def System.callPool (s : System) (client : Client) (body : BodyStream) (now : Timestamp)
    (listenerInvalidated : Bool) : PoolCall → System
  | .releaseConnection p =>
    { s.setSession p { s.sessions p with
        lastResponse := (s.sessions p).lastResponse.map fun r =>
          { r with releasedAtEof := body.base.content.eofbit } } with
      clients := { s.clients with
        pool := (s.clients.pool.releaseConnection p now listenerInvalidated).2
        holds := Function.update s.clients.holds client none } }
  | .removeConnection p =>
    { s with clients := { s.clients with
        pool := (s.clients.pool.removeConnection p).2
        holds := Function.update s.clients.holds client none } }

/-- What the end of a stream's `close` does: the result is that of `BodyStream.close`. -/
def System.afterClose (s : System) (client : Client) (p : ConnectionPtr) (now : Timestamp)
    (listenerInvalidated : Bool) : Option PoolCall × BodyStream × Int64 → System
  | (poolCall, closed, receiveTimeout) =>
    let s := (s.setBody client closed).setSession p
      { s.sessions p with receiveTimeout := receiveTimeout }
    match poolCall with
    | some poolCall => s.callPool client closed now listenerInvalidated poolCall
    | none => s

/-- The stream of a client is closed. -/
def System.closeBody (s : System) (client : Client) (body : BodyStream) (env : Close)
    (now : Timestamp) (listenerInvalidated : Bool) : System :=
  match body.connectionInternal with
  | none => s.setBody client (body.close makeCacheKey 0 env).2.1
  | some p => s.afterClose client p now listenerInvalidated
      (body.close makeCacheKey (s.sessions p).receiveTimeout env)

/-- One action; `none` when it cannot be taken or throws. -/
def step (poco : Poco) (s : System) : Action → Option System
  | .findAndReuseConnection client url context =>
    if (s.bodies client).isSome then none
    else (PoolClients.step poco s.clients (.findAndReuseConnection client url context)).map
      fun clients => { s with clients := clients }
  | .createConnection client p url context sslContext =>
    if (s.bodies client).isSome then none
    else (PoolClients.step poco s.clients
      (.createConnection client p url context sslContext)).map fun clients =>
        { s.setSession p { timeout := timespan context.timeoutSec
                           receiveTimeout := timespan context.timeoutSec } with clients := clients }
  | .fail client =>
    if (s.bodies client).isSome then none
    else (PoolClients.step poco s.clients (.removeConnection client)).map
      fun clients => { s with clients := clients }
  | .receiveResponse client content keepAlive =>
    match s.clients.holds client, s.bodies client with
    | some p, none =>
      let s := (s.setSession p { s.sessions p with lastResponse := some ⟨keepAlive, false⟩ }).setBody
        client (.withoutCaching (.construct content (some p)))
      if keepAlive then some s
      else some { s with clients := { s.clients with
        pool := (s.clients.pool.removeConnection p).2 } }
    | _, _ => none
  | .read client buffer readBytes env =>
    (s.bodies client).map fun body => s.setBody client (body.read buffer readBytes env)
  | .exchange client response =>
    ((s.bodies client).bind (·.exchange response)).map (s.setBody client)
  | .close client env now listenerInvalidated =>
    (s.bodies client).map fun body =>
      s.closeBody makeCacheKey client body env now listenerInvalidated
  | .removeByOther p =>
    some { s with clients := { s.clients with pool := (s.clients.pool.removeConnection p).2 } }
  | .setConnectionStatusListener p listener =>
    some { s with clients := { s.clients with pool := s.clients.pool.setListener p listener } }
  | .onKeepAliveTimeoutExpired task =>
    some { s with clients := { s.clients with
      pool := s.clients.pool.onKeepAliveTimeoutExpired task } }

/-! ## What should hold -/

/-- Nothing of the last response is left to read, the socket has the receive timeout that
`createConnection` gave it, and the last response allowed the connection to be kept. -/
structure Clean (session : Session) : Prop where
  receiveTimeout : session.receiveTimeout = session.timeout
  lastResponse : session.lastResponse = some ⟨true, true⟩

/-- A connection that waits in the pool is clean. -/
def IdleClean (s : System) : Prop :=
  ∀ p task, s.clients.pool.connectionControls.find? p = some task →
    (s.clients.pool.connections p).connectionStatus = .idle → Clean (s.sessions p)

/-- A connection that the pool hands out again is clean. -/
def HandsOutClean (poco : Poco) (s : System) : Prop :=
  ∀ url context p, (s.clients.pool.findAndReuseConnection poco url context).1 = some p →
    Clean (s.sessions p)

/-! ## Closing a stream -/

section
variable {makeCacheKey : HttpMethod → String → String} {p : ConnectionPtr} {receiveTimeout : Int64}

/-- How a stream that has a connection is closed: it was closed before, or the connection is
released at the end of the stream with its receive timeout as it was, or it is removed. -/
inductive ClosedWith (p : ConnectionPtr) (receiveTimeout : Int64) (body : BodyStream) :
    Option PoolCall × BodyStream × Int64 → Prop where
  | before : ClosedWith p receiveTimeout body (none, body, receiveTimeout)
  | released (closed : BodyStream) (hconnection : closed.connectionInternal = none)
    (heof : closed.base.content.eofbit = true) :
    ClosedWith p receiveTimeout body (some (.releaseConnection p), closed, receiveTimeout)
  | removed (closed : BodyStream) (hconnection : closed.connectionInternal = none) (last : Int64) :
    ClosedWith p receiveTimeout body (some (.removeConnection p), closed, last)

/-- A stream without a cache is closed so. -/
theorem close_withoutCaching {s : ResponseBodyStreamWithoutCaching}
    (hconnection : s.connectionInternal = some p) (env : Close) :
    ClosedWith p receiveTimeout (.withoutCaching s)
      (BodyStream.close makeCacheKey receiveTimeout env (.withoutCaching s)) := by
  have htrue := @ResponseBodyStreamInternal.skipAll_true _ _
    ResponseBodyStreamWithoutCaching.base ResponseBodyStreamWithoutCaching.skipRead
    env.withoutCaching s receiveTimeout
  simp only [BodyStream.close, ResponseBodyStreamWithoutCaching.close, hconnection]
  split
  · exact .before
  rcases hskip : ResponseBodyStreamInternal.skipAll ResponseBodyStreamWithoutCaching.base
    ResponseBodyStreamWithoutCaching.skipRead env.withoutCaching s receiveTimeout
    with ⟨reusable, skipped, last⟩
  rw [hskip] at htrue
  cases reusable with
  | true =>
    obtain ⟨heof, hlast⟩ := htrue rfl
    rw [show last = receiveTimeout from hlast]
    exact .released _ rfl heof
  | false => exact .removed _ rfl last

/-- A stream with a cache is closed so. -/
theorem close_withCaching {s : ResponseBodyStreamWithCaching}
    (hconnection : s.connectionInternal = some p) (env : Close) :
    ClosedWith p receiveTimeout (.withCaching s)
      (BodyStream.close makeCacheKey receiveTimeout env (.withCaching s)) := by
  have htrue := @ResponseBodyStreamInternal.skipAll_true _ _
    ResponseBodyStreamWithCaching.base ResponseBodyStreamWithCaching.skipRead
    env.withCaching.skip s receiveTimeout
  simp only [BodyStream.close, ResponseBodyStreamWithCaching.close, hconnection]
  split
  · exact .before
  rcases hskip : ResponseBodyStreamInternal.skipAll ResponseBodyStreamWithCaching.base
    ResponseBodyStreamWithCaching.skipRead env.withCaching.skip s receiveTimeout
    with ⟨reusable, skipped, last⟩
  rw [hskip] at htrue
  cases reusable with
  | true =>
    obtain ⟨heof, hlast⟩ := htrue rfl
    rw [show last = receiveTimeout from hlast]
    refine .released _ (ResponseBodyStreamWithCaching.finishClose_connectionInternal _ _ _) ?_
    show (ResponseBodyStreamWithCaching.finishClose _ _ _).2.1.base.content.eofbit = true
    rw [ResponseBodyStreamWithCaching.finishClose_base]
    exact heof
  | false =>
    refine .removed _ ?_ last
    exact ResponseBodyStreamWithCaching.finishClose_connectionInternal _ _ _

/-- Every stream is closed so. -/
theorem close_closedWith {body : BodyStream} (hconnection : body.connectionInternal = some p)
    (env : Close) :
    ClosedWith p receiveTimeout body (body.close makeCacheKey receiveTimeout env) := by
  cases body with
  | withoutCaching s => exact close_withoutCaching hconnection env
  | withCaching s => exact close_withCaching hconnection env

/-- A stream without a connection gets none by being closed. -/
theorem close_connectionInternal {body : BodyStream} (hconnection : body.connectionInternal = none)
    (env : Close) :
    (body.close makeCacheKey receiveTimeout env).2.1.connectionInternal = none := by
  cases body with
  | withoutCaching s =>
    simp only [BodyStream.close, ResponseBodyStreamWithoutCaching.close,
      show s.connectionInternal = none from hconnection]
    split
    · exact hconnection
    · rfl
  | withCaching s =>
    simp only [BodyStream.close, ResponseBodyStreamWithCaching.close,
      show s.connectionInternal = none from hconnection]
    split <;> exact hconnection

end

/-! ## The invariant -/

/-- What holds in every state. -/
structure Inv (s : System) : Prop where
  clients : PoolClients.Inv s.clients
  /-- The stream of a client has the connection that the client holds. -/
  linked : ∀ x body, s.bodies x = some body → body.connectionInternal = s.clients.holds x
  receiveTimeout : ∀ x p, s.clients.holds x = some p →
    (s.sessions p).receiveTimeout = (s.sessions p).timeout
  /-- The response of a client whose connection is in the pool allowed it to be kept. -/
  keepAlive : ∀ x body p task, s.bodies x = some body → s.clients.holds x = some p →
    s.clients.pool.connectionControls.find? p = some task →
      ∃ releasedAtEof, (s.sessions p).lastResponse = some ⟨true, releasedAtEof⟩
  idle : IdleClean s

theorem inv_initial (keepAliveIdleCountMax : ℕ) (keepAliveTimeoutSec : Int64) :
    Inv (System.initial keepAliveIdleCountMax keepAliveTimeoutSec) where
  clients := PoolClients.inv_initial _ _
  linked := fun _ _ h => by cases h
  receiveTimeout := fun _ _ h => by cases h
  keepAlive := fun _ _ _ _ h => by cases h
  idle := fun _ _ h => by cases h

variable {makeCacheKey : HttpMethod → String → String} {poco : Poco} {s s' : System}
  {p : ConnectionPtr} {client : Client}

/-- Connections are removed from the pool, and clients without a response may let go. -/
theorem inv_within (hinv : Inv s) (hclients : PoolClients.Inv s'.clients)
    (hwithin : s'.clients.pool.Within s.clients.pool)
    (hholds : ∀ x, s'.clients.holds x = s.clients.holds x ∨
      s'.clients.holds x = none ∧ s.bodies x = none)
    (hsessions : s'.sessions = s.sessions) (hbodies : s'.bodies = s.bodies) : Inv s' := by
  have hheld : ∀ x p, s'.clients.holds x = some p → s.clients.holds x = some p := by
    intro x p hx
    rcases hholds x with heq | ⟨hnone, -⟩
    · rw [← heq]
      exact hx
    · rw [hnone] at hx
      cases hx
  refine ⟨hclients, fun x body hbody => ?_, fun x p hx => ?_,
    fun x body p task hbody hx hfind => ?_, fun p task hfind hidle => ?_⟩
  · rw [hbodies] at hbody
    rcases hholds x with heq | ⟨-, hnone⟩
    · rw [heq]
      exact hinv.linked x body hbody
    · rw [hbody] at hnone
      cases hnone
  · rw [hsessions]
    exact hinv.receiveTimeout x p (hheld x p hx)
  · rw [hsessions]
    rw [hbodies] at hbody
    exact hinv.keepAlive x body p task hbody (hheld x p hx) (hwithin p task hfind).1
  · obtain ⟨hbefore, hstatus⟩ := hwithin p task hfind
    rw [hstatus] at hidle
    rw [hsessions]
    exact hinv.idle p task hbefore hidle

/-- A client without a response gets a connection, whose socket has the timeout of its session. -/
theorem inv_obtain {c : ConnectionInternal} {session : Session} (hinv : Inv s)
    (hnone : s.bodies client = none) (hclients : PoolClients.Inv s'.clients)
    (h : Obtained s.clients s'.clients client p c)
    (hsession : session.receiveTimeout = session.timeout)
    (hsessions : s'.sessions = Function.update s.sessions p session)
    (hbodies : s'.bodies = s.bodies) : Inv s' := by
  have hother : ∀ q ≠ p, s'.sessions q = s.sessions q := by
    intro q hq
    rw [hsessions, Function.update_of_ne hq]
  refine ⟨hclients, fun x body hbody => ?_, fun x q hx => ?_,
    fun x body q task hbody hx hfind => ?_, fun q task hfind hidle => ?_⟩
  · rw [hbodies] at hbody
    -- the client had no body yet
    have hne : x ≠ client := by
      intro heq
      rw [heq, hnone] at hbody
      cases hbody
    rw [h.holds, Function.update_of_ne hne]
    exact hinv.linked x body hbody
  -- the client holds this connection, or another client holds another one
  · rcases h.holds_cases x q hx with ⟨-, hq⟩ | ⟨-, hq, hx⟩
    · rw [hsessions, hq, Function.update_self]
      exact hsession
    · rw [hother q hq]
      exact hinv.receiveTimeout x q hx
  · rw [hbodies] at hbody
    rcases h.holds_cases x q hx with ⟨hxc, -⟩ | ⟨-, hq, hx⟩
    · rw [hxc, hnone] at hbody
      cases hbody
    · rw [h.controls, SortedMap.find?_set, if_neg hq] at hfind
      rw [hother q hq]
      exact hinv.keepAlive x body q task hbody hx hfind
  · rw [h.connections] at hidle
    -- a connection that waits has kept its session
    by_cases hq : q = p
    · rw [hq, Function.update_self, h.inuse] at hidle
      cases hidle
    · rw [Function.update_of_ne hq] at hidle
      rw [h.controls, SortedMap.find?_set, if_neg hq] at hfind
      rw [hother q hq]
      exact hinv.idle q task hfind hidle

/-- The stream of a client is replaced by one with the same connection. -/
theorem inv_setBody {body after : BodyStream} (hinv : Inv s) (hbody : s.bodies client = some body)
    (hsame : after.connectionInternal = body.connectionInternal) :
    Inv (s.setBody client after) := by
  have hcases : ∀ x b, (s.setBody client after).bodies x = some b →
      ∃ b', s.bodies x = some b' ∧ b.connectionInternal = b'.connectionInternal := by
    intro x b hb
    replace hb : Function.update s.bodies client (some after) x = some b := hb
    by_cases hx : x = client
    · rw [hx, Function.update_self] at hb
      cases hb
      exact ⟨body, hx ▸ hbody, hsame⟩
    · rw [Function.update_of_ne hx] at hb
      exact ⟨b, hb, rfl⟩
  refine ⟨hinv.clients, fun x b hb => ?_, hinv.receiveTimeout, fun x b p task hb hx hfind => ?_,
    hinv.idle⟩
  · obtain ⟨b', hb', heq⟩ := hcases x b hb
    rw [heq]
    exact hinv.linked x b' hb'
  · obtain ⟨b', hb', -⟩ := hcases x b hb
    exact hinv.keepAlive x b' p task hb' hx hfind

/-- A response comes to a client that has none. -/
theorem inv_receive {content : IStream} {keepAlive : Bool} (hinv : Inv s)
    (hheld : s.clients.holds client = some p) (hclients : PoolClients.Inv s'.clients)
    (hholds : s'.clients.holds = s.clients.holds)
    (hwithin : s'.clients.pool.Within s.clients.pool)
    (hremoved : keepAlive = false → s'.clients.pool.connectionControls.find? p = none)
    (hsessions : s'.sessions = Function.update s.sessions p
      { s.sessions p with lastResponse := some ⟨keepAlive, false⟩ })
    (hbodies : s'.bodies = Function.update s.bodies client
      (some (.withoutCaching (.construct content (some p))))) : Inv s' := by
  have hother : ∀ q ≠ p, s'.sessions q = s.sessions q := by
    intro q hq
    rw [hsessions, Function.update_of_ne hq]
  refine ⟨hclients, fun x b hb => ?_, fun x q hx => ?_, fun x b q task hb hx hfind => ?_,
    fun q task hfind hidle => ?_⟩
  · rw [hbodies] at hb
    rw [hholds]
    -- the body of this client is the one that is received now
    by_cases hx : x = client
    · rw [hx, Function.update_self] at hb
      cases hb
      rw [hx, hheld]
      rfl
    · rw [Function.update_of_ne hx] at hb
      exact hinv.linked x b hb
  · rw [hholds] at hx
    -- the timeout of the session is the one it was configured with
    by_cases hq : q = p
    · rw [hsessions, hq, Function.update_self]
      exact hinv.receiveTimeout x p (hq ▸ hx)
    · rw [hother q hq]
      exact hinv.receiveTimeout x q hx
  · rw [hholds] at hx
    rw [hbodies] at hb
    by_cases hq : q = p
    -- without keep-alive the connection would have left the pool
    · have hkept : keepAlive = true := by
        by_contra hnot
        rw [hq, hremoved (Bool.not_eq_true _ ▸ hnot)] at hfind
        cases hfind
      rw [hsessions, hq, Function.update_self, hkept]
      exact ⟨false, rfl⟩
    · have hxc : x ≠ client := by
        intro heq
        rw [heq, hheld] at hx
        exact hq (Option.some.inj hx).symm
      rw [Function.update_of_ne hxc] at hb
      rw [hother q hq]
      exact hinv.keepAlive x b q task hb hx (hwithin q task hfind).1
  -- a connection that waits is not the one this client holds
  · obtain ⟨hbefore, hstatus⟩ := hwithin q task hfind
    rw [hstatus] at hidle
    have hq : q ≠ p := by
      intro heq
      rw [heq] at hbefore hidle
      exact not_held_of_idle hinv.clients hbefore hidle client hheld
    rw [hother q hq]
    exact hinv.idle q task hbefore hidle

/-- A client gives its connection back; if the pool still has the connection then, it is clean. -/
theorem inv_giveBack {session : Session} {closed : BodyStream} (hinv : Inv s)
    (hheld : s.clients.holds client = some p) (hclients : PoolClients.Inv s'.clients)
    (hholds : s'.clients.holds = Function.update s.clients.holds client none)
    (hothers : ∀ q ≠ p, s'.clients.pool.connections q = s.clients.pool.connections q ∧
      (s'.clients.pool.connectionControls.find? q = s.clients.pool.connectionControls.find? q ∨
        s'.clients.pool.connectionControls.find? q = none))
    (hclean : s'.clients.pool.connectionControls.find? p ≠ none → Clean session)
    (hsessions : s'.sessions = Function.update s.sessions p session)
    (hbodies : s'.bodies = Function.update s.bodies client (some closed))
    (hconnection : closed.connectionInternal = none) : Inv s' := by
  -- the other clients hold other connections
  have hheldBefore : ∀ x q, s'.clients.holds x = some q →
      x ≠ client ∧ q ≠ p ∧ s.clients.holds x = some q := by
    intro x q hx
    rw [hholds] at hx
    obtain ⟨hxc, hx⟩ := holds_of_update_none hx
    refine ⟨hxc, fun hq => ?_, hx⟩
    rw [hq] at hx
    exact hxc (hinv.clients.exclusive x client p hx hheld)
  have hother : ∀ q ≠ p, s'.sessions q = s.sessions q := by
    intro q hq
    rw [hsessions, Function.update_of_ne hq]
  have hfindBefore : ∀ q ≠ p, ∀ task,
      s'.clients.pool.connectionControls.find? q = some task →
        s.clients.pool.connectionControls.find? q = some task := by
    intro q hq task hfind
    -- a connection that waits now waited before, or it is the one given back
    rcases (hothers q hq).2 with heq | hnone
    · rw [← heq]
      exact hfind
    · rw [hnone] at hfind
      cases hfind
  refine ⟨hclients, fun x b hb => ?_, fun x q hx => ?_, fun x b q task hb hx hfind => ?_,
    fun q task hfind hidle => ?_⟩
  · rw [hbodies] at hb
    rw [hholds]
    by_cases hx : x = client
    · rw [hx, Function.update_self] at hb
      cases hb
      rw [hx, Function.update_self]
      exact hconnection
    · rw [Function.update_of_ne hx] at hb ⊢
      exact hinv.linked x b hb
  · obtain ⟨-, hq, hx⟩ := hheldBefore x q hx
    rw [hother q hq]
    exact hinv.receiveTimeout x q hx
  · obtain ⟨hxc, hq, hx⟩ := hheldBefore x q hx
    rw [hbodies, Function.update_of_ne hxc] at hb
    rw [hother q hq]
    exact hinv.keepAlive x b q task hb hx (hfindBefore q hq task hfind)
  -- the connection that is given back is clean
  · by_cases hq : q = p
    · rw [hq] at hfind
      rw [hsessions, hq, Function.update_self]
      refine hclean fun hnone => ?_
      rw [hnone] at hfind
      cases hfind
    · rw [(hothers q hq).1] at hidle
      rw [hother q hq]
      exact hinv.idle q task (hfindBefore q hq task hfind) hidle

/-- A removal leaves the other connections alone. -/
theorem removeConnection_others (pool : ConnectionPoolInternal) {q : ConnectionPtr} (hq : q ≠ p) :
    (pool.removeConnection p).2.connections q = pool.connections q ∧
      ((pool.removeConnection p).2.connectionControls.find? q = pool.connectionControls.find? q ∨
        (pool.removeConnection p).2.connectionControls.find? q = none) := by
  rw [ConnectionPoolInternal.removeConnection_connections,
    ConnectionPoolInternal.removeConnection_find?, if_neg hq]
  exact ⟨rfl, .inl rfl⟩

theorem inv_afterClose {body : BodyStream} {r : Option PoolCall × BodyStream × Int64}
    (hinv : Inv s) (hbody : s.bodies client = some body) (hheld : s.clients.holds client = some p)
    (hclosed : ClosedWith p (s.sessions p).receiveTimeout body r) (now : Timestamp)
    (listenerInvalidated : Bool) : Inv (s.afterClose client p now listenerInvalidated r) := by
  cases hclosed with
  | before =>
    -- nothing has changed
    have hbodies : Function.update s.bodies client (some body) = s.bodies := by
      rw [← hbody]
      exact Function.update_eq_self ..
    have hsessions : Function.update s.sessions p (s.sessions p) = s.sessions :=
      Function.update_eq_self ..
    show Inv (System.mk s.clients (Function.update s.sessions p (s.sessions p))
      (Function.update s.bodies client (some body)))
    rw [hbodies, hsessions]
    exact hinv
  -- the body was read to its end, so the connection goes back with its timeout restored
  | released closed hnone heof =>
    have hreleased := @ConnectionPoolInternal.releaseConnection_released _ p
      hinv.clients.wellFormed now listenerInvalidated
    refine @inv_giveBack s _ p client { s.sessions p with
        lastResponse := (s.sessions p).lastResponse.map fun r =>
          { r with releasedAtEof := closed.base.content.eofbit } } closed hinv hheld
      (inv_release hinv.clients hheld) rfl hreleased.others (fun hfind => ?_) ?_ rfl hnone
    · -- the pool has no connection that it did not have before
      have hbefore : s.clients.pool.connectionControls.find? p ≠ none := by
        rcases hreleased.own with hgone | ⟨hown, -⟩
        · exact (hfind hgone).elim
        · exact hown
      obtain ⟨task, htask⟩ := Option.ne_none_iff_exists'.mp hbefore
      obtain ⟨releasedAtEof, hlast⟩ := hinv.keepAlive client body p task hbody hheld htask
      refine ⟨hinv.receiveTimeout client p hheld, ?_⟩
      rw [hlast, heof]
      rfl
    · show Function.update (Function.update s.sessions p (s.sessions p)) p
        { Function.update s.sessions p (s.sessions p) p with
          lastResponse := (Function.update s.sessions p (s.sessions p) p).lastResponse.map _ } = _
      rw [Function.update_eq_self]
  -- the connection is removed, and nobody will use it
  | removed closed hnone last =>
    refine @inv_giveBack s _ p client { s.sessions p with receiveTimeout := last } closed hinv
      hheld ?_ rfl (fun q hq => removeConnection_others s.clients.pool hq) (fun hfind => ?_) rfl rfl
      hnone
    · exact PoolClients.inv_within hinv.clients
        (ConnectionPoolInternal.removeConnection_within _ _)
        (fun x q hx => (holds_of_update_none hx).2) rfl
    · refine (hfind ?_).elim
      show (s.clients.pool.removeConnection p).2.connectionControls.find? p = none
      rw [ConnectionPoolInternal.removeConnection_find?, if_pos rfl]

theorem inv_close {body : BodyStream} (hinv : Inv s) (hbody : s.bodies client = some body)
    (env : Close) (now : Timestamp) (listenerInvalidated : Bool) :
    Inv (s.closeBody makeCacheKey client body env now listenerInvalidated) := by
  unfold System.closeBody
  cases hconnection : body.connectionInternal with
  | none =>
    refine inv_setBody hinv hbody ?_
    rw [hconnection]
    exact close_connectionInternal hconnection env
  | some p =>
    have hheld : s.clients.holds client = some p := by
      rw [← hinv.linked client body hbody]
      exact hconnection
    exact inv_afterClose hinv hbody hheld (close_closedWith hconnection env) now
      listenerInvalidated

/-! ## Every run -/

/-- A read leaves the connection to the stream. -/
theorem read_connectionInternal (buffer : Bool) (readBytes : UInt64) (env : CachingRead)
    (body : BodyStream) :
    (body.read buffer readBytes env).connectionInternal = body.connectionInternal := by
  cases body with
  | withoutCaching s => rfl
  | withCaching s => exact ResponseBodyStreamWithCaching.read_connectionInternal s ..

theorem exchange_connectionInternal {response : Response} {body after : BodyStream}
    (h : body.exchange response = some after) :
    after.connectionInternal = body.connectionInternal := by
  cases body with
  | withoutCaching s =>
    cases h
    rfl
  | withCaching s => cases h

/-- Other threads and the timers only take connections out of the pool. -/
theorem inv_pool {pool : ConnectionPoolInternal} (hinv : Inv s)
    (hwithin : pool.Within s.clients.pool) :
    Inv { s with clients := { s.clients with pool := pool } } :=
  inv_within hinv (PoolClients.inv_within hinv.clients hwithin (fun _ _ hx => hx) rfl) hwithin
    (fun _ => .inl rfl) rfl rfl

/-- Every action keeps the invariant. -/
theorem step_inv {a : Action} (hinv : Inv s) (h : step makeCacheKey poco s a = some s') :
    Inv s' := by
  cases a with
  | findAndReuseConnection client url context =>
    rw [step] at h
    split at h
    · cases h
    rename_i hnone
    rw [Bool.not_eq_true, Option.isSome_eq_false_iff, Option.isNone_iff_eq_none] at hnone
    obtain ⟨clients, hstep, rfl⟩ := Option.map_eq_some_iff.mp h
    have hclients := PoolClients.step_inv hinv.clients hstep
    -- what is reused was clean before it was handed out
    rcases findAndReuseConnection_cases hinv.clients hstep with heq | ⟨p, hfound, hobtained⟩
    · rw [heq]
      exact hinv
    · obtain ⟨⟨task, hfind⟩, hidle, -, -⟩ :=
        ConnectionPoolInternal.findAndReuseConnection_some hfound
      exact inv_obtain hinv hnone hclients hobtained (hinv.idle p task hfind hidle).receiveTimeout
        (Function.update_eq_self ..).symm rfl
  | createConnection client p url context sslContext =>
    rw [step] at h
    split at h
    · cases h
    rename_i hnone
    rw [Bool.not_eq_true, Option.isSome_eq_false_iff, Option.isNone_iff_eq_none] at hnone
    obtain ⟨clients, hstep, rfl⟩ := Option.map_eq_some_iff.mp h
    -- a new connection has an unused session
    obtain ⟨c, hobtained⟩ := createConnection_obtained hinv.clients hstep
    exact inv_obtain hinv hnone (PoolClients.step_inv hinv.clients hstep) hobtained rfl rfl rfl
  | fail client =>
    rw [step] at h
    split at h
    · cases h
    rename_i hnone
    rw [Bool.not_eq_true, Option.isSome_eq_false_iff, Option.isNone_iff_eq_none] at hnone
    obtain ⟨clients, hstep, rfl⟩ := Option.map_eq_some_iff.mp h
    have hclients := PoolClients.step_inv hinv.clients hstep
    rw [PoolClients.step] at hstep
    split at hstep
    · cases hstep
      -- the attempt has failed, and its connection is removed
      refine inv_within hinv hclients (ConnectionPoolInternal.removeConnection_within _ _)
        (fun x => ?_) rfl rfl
      by_cases hx : x = client
      · refine .inr ⟨?_, hx ▸ hnone⟩
        rw [hx]
        exact Function.update_self ..
      · exact .inl (Function.update_of_ne hx ..)
    · cases hstep
  | receiveResponse client content keepAlive =>
    rw [step] at h
    split at h
    · rename_i p hheld hnone
      -- with keep-alive the connection stays in the pool
      cases keepAlive with
      | true =>
        cases h
        exact @inv_receive _ _ p client content true hinv hheld hinv.clients rfl
          (fun _ _ hfind => ⟨hfind, rfl⟩) (fun hfalse => by cases hfalse) rfl rfl
      | false =>
        cases h
        have hwithin := ConnectionPoolInternal.removeConnection_within s.clients.pool p
        refine @inv_receive _ _ p client content false hinv hheld
          (PoolClients.inv_within hinv.clients hwithin (fun _ _ hx => hx) rfl) rfl hwithin
          (fun _ => ?_) rfl rfl
        show (s.clients.pool.removeConnection p).2.connectionControls.find? p = none
        rw [ConnectionPoolInternal.removeConnection_find?, if_pos rfl]
    · cases h
  | read client buffer readBytes env =>
    -- reads and exchanges leave the connection to the body
    obtain ⟨body, hbody, rfl⟩ := Option.map_eq_some_iff.mp h
    exact inv_setBody hinv hbody (read_connectionInternal buffer readBytes env body)
  | exchange client response =>
    obtain ⟨after, hexchange, rfl⟩ := Option.map_eq_some_iff.mp h
    obtain ⟨body, hbody, hexchange⟩ := Option.bind_eq_some_iff.mp hexchange
    exact inv_setBody hinv hbody (exchange_connectionInternal hexchange)
  | close client env now listenerInvalidated =>
    obtain ⟨body, hbody, rfl⟩ := Option.map_eq_some_iff.mp h
    exact inv_close hinv hbody env now listenerInvalidated
  | removeByOther p =>
    cases h
    exact inv_pool hinv (ConnectionPoolInternal.removeConnection_within _ _)
  | setConnectionStatusListener p listener =>
    cases h
    exact inv_pool hinv (ConnectionPoolInternal.setConnection_within rfl)
  | onKeepAliveTimeoutExpired task =>
    cases h
    exact inv_pool hinv (ConnectionPoolInternal.onKeepAliveTimeoutExpired_within _ _)

theorem run_inv {actions : List Action} (hinv : Inv s)
    (hrun : Runs.run (step makeCacheKey poco) s actions = some s') : Inv s' :=
  Runs.run_invariant (fun _ _ _ hinv _ h => step_inv hinv h) hinv hrun
    (Runs.everyStep_true s actions)

/-- In every state a connection that the pool hands out is clean. -/
theorem handsOutClean (hinv : Inv s) : HandsOutClean poco s := by
  intro url context p h
  obtain ⟨⟨task, hfind⟩, hidle, -, -⟩ := ConnectionPoolInternal.findAndReuseConnection_some h
  exact hinv.idle p task hfind hidle

/-- In every run the idle connections of the pool are clean, and so is what the pool hands out. -/
theorem idle_connections_clean (makeCacheKey : HttpMethod → String → String) (poco : Poco)
    (keepAliveIdleCountMax : ℕ) (keepAliveTimeoutSec : Int64) (actions : List Action) (s : System)
    (hrun : Runs.run (step makeCacheKey poco)
      (System.initial keepAliveIdleCountMax keepAliveTimeoutSec) actions = some s) :
    IdleClean s ∧ HandsOutClean poco s := by
  have hinv := run_inv (inv_initial _ _) hrun
  exact ⟨hinv.idle, handsOutClean hinv⟩

/-- A response is read to its end and closed, and its connection is taken for the next request. -/
def reuse : List Action :=
  [.createConnection 0 7 "http://a.com/" plainContext (.ok ()), .receiveResponse 0 {} true,
    .read 0 true 8 { sgetn := .bytes [1, 2] },
    .close 0 ⟨⟨true, [], true⟩, { skip := ⟨true, [], true⟩ }⟩ ⟨0⟩ true,
    .findAndReuseConnection 1 "http://a.com/" plainContext]

theorem idle_connections_clean_reuse :
    ∃ s ∈ Runs.run (step (fun _ url => url) Poco.plain) (System.initial 5 5) reuse,
      s.clients.holds 1 = some 7 ∧ IdleClean s ∧ HandsOutClean Poco.plain s := by
  have hran : ∃ s ∈ Runs.run (step (fun _ url => url) Poco.plain) (System.initial 5 5) reuse,
      s.clients.holds 1 = some 7 := by decide +kernel
  obtain ⟨s, hrun, hholds⟩ := hran
  exact ⟨s, hrun, hholds, idle_connections_clean _ _ _ _ _ _ hrun⟩

end EasyHttp.ConnectionReuse
